import Folio.Proofs.Completeness
import Folio.Proofs.Outputs

/-! The body of a component, which should not show in what the component is turned into. The body ends
at the first closing brace that belongs to nothing in it. A brace that opens nothing is passed over,
so its closing brace ends the body too early, and what comes after that is parsed as if it stood
outside. -/

namespace Folio.Grammar
open Heading Parse

/-- The tokens start a component with a name, and `rest` stands after its opening brace. -/
def StartsComponent (name : String) (ts rest : List Token) : Prop :=
  ∃ location, Writes [.opener .component location, .name name, .symbol .leftBrace] ts rest

/-- The tokens close a body, and nothing comes after it. -/
def Closes (ts : List Token) : Prop :=
  ∃ finish, Writes [.symbol .rightBrace] ts finish ∧ ∀ t ∈ finish, t.kind = .eof

/-- The tokens are those of a component with a name and with `inside` between its braces. -/
def IsComponent (name : String) (inside ts : List Token) : Prop :=
  ∃ rest, StartsComponent name ts (inside ++ rest) ∧ Closes rest

variable {name : String} {tokens bare inside rest : List Token}

/-- What is parsed after a component's body ended. -/
def outside (ts : List Token) : List Node :=
  (body maxDepth 0 (skip (.symbol .rightBrace) (body maxDepth 1 ts).rest)).statements

theorem parse_component (h : StartsComponent name (Program.significant tokens) rest) :
    ∃ children location, (Program.parse tokens).statements =
      .construct (.component []) name .empty children location :: outside rest := by
  obtain ⟨location, hw⟩ := h
  obtain ⟨t, ts, hts, ⟨hk, rfl⟩, hmore⟩ := writes_cons.mp hw
  let title : Title := ⟨.component [], some name, .empty, .inl rfl⟩
  have hmarks : Writes (title.marks ++ [.symbol .leftBrace]) ts rest := hmore
  obtain ⟨mid, htitle, hbrace⟩ := writes_append.mp hmarks
  obtain ⟨brace, after, rfl, hb, hnil⟩ := writes_cons.mp hbrace
  obtain rfl := writes_nil.mp hnil
  have hopen : Parse.opening t ts =
      some (.construct (.component []) name .empty, brace :: after) := by
    rw [Parse.opening, hk]
    exact opening_writes title t.location htitle hb
  refine ⟨(body maxDepth 1 after).statements, t.location, ?_⟩
  rw [Program.parse, statements_eq_body, hts,
    body_block (endsBody_keyword hk) (not_tooDeep (by decide)) hopen hb]
  rfl

theorem emit_component (h : StartsComponent name (Program.significant tokens) rest) :
    (Program.parse tokens).emit =
      ⟨"", Snippet.componentStyle name, Snippet.componentScript name⟩ ++ Output.ofNodes (outside rest) := by
  obtain ⟨children, location, hp⟩ := parse_component h
  rw [Program.emit, hp, Output.ofNodes_cons, Output.ofNode]
  rfl

/-- After a body that ends at its own brace, there is nothing. -/
theorem outside_of_closes (h : Closes rest) (hbody : (body maxDepth 1 inside).rest = rest) :
    outside inside = [] := by
  obtain ⟨finish, hw, hend⟩ := h
  obtain ⟨close, more, rfl, hc, hnil⟩ := writes_cons.mp hw
  obtain rfl := writes_nil.mp hnil
  rw [outside, hbody, skip_next hc]
  cases more with
  | nil => simp
  | cons t more => rw [body_end (by simp [endsBody, hend t (by simp)])]

theorem Closes.rest_body (h : Closes rest) : (body maxDepth 1 rest).rest = rest := by
  obtain ⟨finish, hw, -⟩ := h
  obtain ⟨close, more, rfl, hc, -⟩ := writes_cons.mp hw
  have hc : close.kind = .symbol .rightBrace := hc
  rw [body_end (by simp [endsBody, hc])]

/-- The output of a component is that of a component with an empty body, and what is found outside. -/
theorem emit_component_eq {rest' : List Token}
    (h : StartsComponent name (Program.significant tokens) rest)
    (hbare : StartsComponent name (Program.significant bare) rest') (hclose : Closes rest') :
    (Program.parse tokens).emit = (Program.parse bare).emit ++ Output.ofNodes (outside rest) := by
  rw [emit_component h, emit_component hbare, outside_of_closes hclose hclose.rest_body,
    Output.ofNodes_nil,
    Output.append_nil]

theorem emit_eq_left {o : Output} {ts : List Token} :
    o ++ Output.ofNodes (outside ts) = o ↔ ∀ n ∈ outside ts, n.kind = Keyword.route.spelling := by
  rw [Output.append_eq_left, Output.ofNodes_eq_nil]
  exact forall₂_congr fun n hn => Output.ofNode_eq_nil (isStatement_of_mem_body hn)

/-- What a component is turned into depends on its body as far as statements are found behind the
component that are no routes. They come from the body, since nothing stands behind it. -/
theorem emit_component_body (h : IsComponent name inside (Program.significant tokens))
    (hbare : IsComponent name [] (Program.significant bare)) :
    (Program.parse tokens).emit =
        (Program.parse bare).emit ++ Output.ofNodes (Program.parse tokens).statements.tail ∧
      ((Program.parse tokens).emit = (Program.parse bare).emit ↔
        ∀ n ∈ (Program.parse tokens).statements.tail, n.kind = Keyword.route.spelling) := by
  obtain ⟨rest, hstart, -⟩ := h
  obtain ⟨rest', hstart', hclose'⟩ := hbare
  obtain ⟨children, location, hp⟩ := parse_component hstart
  have he := emit_component_eq hstart hstart' hclose'
  rw [hp, List.tail_cons]
  exact ⟨he, by rw [he, emit_eq_left]⟩

def strayText : String := "component N \x7b \x7b \x7d page P \x7b \x7d \x7d"

def strayTokens : List Token := Token.scan strayText

def bareTokens : List Token := Token.scan "component N \x7b \x7d"

/-- Between the outer braces stand a pair of braces that opens nothing, and a page. -/
def strayInside : List Token := ((Program.significant strayTokens).drop 3).take 6

theorem isComponent_stray : IsComponent "N" strayInside (Program.significant strayTokens) := by
  refine ⟨(Program.significant strayTokens).drop 9, ⟨⟨1, 1⟩, ?_⟩, [⟨.eof, "", ⟨1, 31⟩⟩], ?_, ?_⟩
  all_goals decide +kernel

theorem isComponent_bare : IsComponent "N" [] (Program.significant bareTokens) := by
  refine ⟨(Program.significant bareTokens).drop 3, ⟨⟨1, 1⟩, ?_⟩, [⟨.eof, "", ⟨1, 16⟩⟩], ?_, ?_⟩
  all_goals decide +kernel

theorem emit_component_body_stray :
    IsComponent "N" strayInside (Program.significant strayTokens) ∧
      IsComponent "N" [] (Program.significant bareTokens) ∧
      (Program.parse strayTokens).emit =
        (Program.parse bareTokens).emit ++ Output.ofNodes (Program.parse strayTokens).statements.tail ∧
      ((Program.parse strayTokens).emit = (Program.parse bareTokens).emit ↔
        ∀ n ∈ (Program.parse strayTokens).statements.tail, n.kind = Keyword.route.spelling) :=
  ⟨isComponent_stray, isComponent_bare, emit_component_body isComponent_stray isComponent_bare⟩

/-- Braces in pairs are not enough to keep a body inside: here the page is found outside. -/
theorem emit_component_stray_brace :
    (∀ t ∈ strayInside, t.kind ≠ .eof) ∧ Balanced (strayInside.map Token.kind) ∧
      IsComponent "N" strayInside (Program.significant strayTokens) ∧
      IsComponent "N" [] (Program.significant bareTokens) ∧
      (Program.parse strayTokens).emit ≠ (Program.parse bareTokens).emit := by
  refine ⟨by decide +kernel, by decide +kernel, isComponent_stray, isComponent_bare, ?_⟩
  obtain ⟨rest, hstart, -⟩ := isComponent_stray
  obtain ⟨rest', hstart', hclose'⟩ := isComponent_bare
  obtain ⟨children, location, hp⟩ := parse_component hstart
  have hkinds : (Program.parse strayTokens).statements.map Node.kind = ["component", "page"] := by
    decide +kernel
  rw [hp, List.map_cons, List.cons.injEq] at hkinds
  rw [emit_component_eq hstart hstart' hclose', ne_eq, emit_eq_left]
  intro hroutes
  have hpage : "page" ∈ (outside (strayInside ++ rest)).map Node.kind := by simp [hkinds.2]
  obtain ⟨n, hn, hkind⟩ := List.mem_map.mp hpage
  rw [hroutes n hn] at hkind
  exact absurd hkind (by decide)

/-- A body of statements, with tokens between them that the parser passes over. -/
inductive Filled : List Token → Prop
  | nil : Filled []
  | other {t : Token} {ts : List Token} (he : endsBody 1 t.kind = false)
      (ho : t.kind.opensConstruct = false) (h : Filled ts) : Filled (t :: ts)
  | statement {s : Statement} {ts more : List Token} (hs : s.height < maxDepth)
      (hw : Writes s.marks ts []) (h : Filled more) : Filled (ts ++ more)

/-- The body goes on to the end of its statements. -/
theorem Filled.rest_body (h : Filled inside) (rest : List Token) :
    (body maxDepth 1 (inside ++ rest)).rest = (body maxDepth 1 rest).rest := by
  induction h with
  | nil => rfl
  | other he ho _ ih => rw [List.cons_append, body_skip he ho, ih]
  | @statement s ts more hs hw _ ih =>
    have hw' : Writes s.marks (ts ++ (more ++ rest)) (more ++ rest) := hw.append_rest (more ++ rest)
    rw [List.append_assoc, body_statement s (by omega) hw', ← ih]
    rfl

/-- Where all braces of a body belong to its statements, the body does not show in the output. -/
theorem Filled.emit_eq (hf : Filled inside)
    (h : IsComponent name inside (Program.significant tokens))
    (hbare : IsComponent name [] (Program.significant bare)) :
    (Program.parse tokens).emit = (Program.parse bare).emit := by
  obtain ⟨rest, hstart, hclose⟩ := h
  obtain ⟨rest', hstart', hclose'⟩ := hbare
  -- The body ends at the brace that closes the component, and not before.
  have hrest : (body maxDepth 1 (inside ++ rest)).rest = rest := by
    rw [hf.rest_body, hclose.rest_body]
  rw [emit_component_eq hstart hstart' hclose', outside_of_closes hclose hrest, Output.ofNodes_nil,
    Output.append_nil]

end Folio.Grammar
