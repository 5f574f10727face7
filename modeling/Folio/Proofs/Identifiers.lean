import Folio.Proofs.Delimiters
import Folio.Proofs.LexicalGrammar
import Folio.Proofs.Outline

/-! The names in a document. Each of them is the text of an identifier token, or made of two, and so
it has no character in it that could end the text around it where it is shown. -/

namespace Folio

/-- A word that can be a name: it starts with a letter or an underscore, goes on with letters,
numerals and underscores, and is not reserved. -/
structure IsIdentifier (word : String) : Prop where
  starts : ∃ c ∈ word.toList.head?, Token.startsWord c = true
  parts : ∀ c ∈ word.toList, Token.isWordPart c = true
  free : word ∉ Keyword.all.map Keyword.spelling

/-- What a module statement names: a part of the module or all of it, maybe under another name. -/
def IsSpecifier (text : String) : Prop :=
  ∃ part, (part = "*" ∨ IsIdentifier part) ∧
    (text = part ∨ ∃ other, IsIdentifier other ∧ text = part ++ " as " ++ other)

/-- The names in a header are identifiers. -/
def Header.Named : Header → Prop
  | component typeParams => ∀ p ∈ typeParams, IsIdentifier p
  | event target => ∀ t ∈ target, IsIdentifier t
  | route _ shown => ∀ c ∈ shown, IsIdentifier c
  | hook parameters => ∀ p ∈ parameters, IsIdentifier p
  | plain _ | type _ => True

/-- A construct whose names are identifiers. Its own name may be missing. -/
structure Construct.Named (header : Header) (name : String) (attributes : Attributes) : Prop where
  name : name = "" ∨ IsIdentifier name
  header : header.Named
  keys : ∀ e ∈ attributes.entries, IsIdentifier e.1

/-- A statement whose names are identifiers. -/
def Node.Named : Node → Prop
  | construct header name attributes _ _ => Construct.Named header name attributes
  | imports specifiers _ _ | exports specifiers _ _ _ => ∀ s ∈ specifiers, IsSpecifier s
  | element .. | text .. | expression .. => False

namespace Token

/-- A token whose text a name can be made of. -/
structure Spelled (t : Token) : Prop where
  identifier : t.kind = .identifier → IsIdentifier t.text
  multiply : t.kind = .symbol .multiply → t.text = "*"

theorem isWordPart_of_startsWord {c : Char} (h : startsWord c = true) : isWordPart c = true := by
  simp only [startsWord, isWordPart, Bool.or_eq_true] at h ⊢
  exact h.imp_left .inl

theorem Lexeme.spelled {kind : Kind} {text rest : List Char} (h : Lexeme kind text rest)
    (place : Location) : Spelled ⟨kind, String.ofList text, place⟩ := by
  cases h with
  | @identifier c run _ hc h hk =>
    refine ⟨fun _ => ⟨⟨c, by simp, hc⟩, ?_, ?_⟩, nofun⟩
    · simpa using ⟨isWordPart_of_startsWord hc, h.inside⟩
    · simpa using fun k _ => hk k
  | symbol hs =>
    refine ⟨nofun, fun hm => ?_⟩
    cases hm
    rw [← hs]
    rfl
  | _ => exact ⟨nofun, nofun⟩

theorem Tokens.spelled {place : Location} {cs : List Char} {ts : List Token} (h : Tokens place cs ts) :
    ∀ t ∈ ts, t.Spelled := by
  induction h with
  | done place => simpa using ⟨nofun, nofun⟩
  | token h _ ih => exact List.forall_mem_cons.mpr ⟨h.spelled _, ih⟩
  | dropped _ _ ih => exact ih

theorem spelled_scan (source : String) : ∀ t ∈ scan source, t.Spelled := by
  rw [scan_eq]
  exact (tokens_placed .start source.toList).spelled

end Token

namespace Heading
open Token (Kind)

variable {k : Keyword} {α β : Type} {t : Token} {ts : List Token} {P : α → Prop} {Q : β → Prop}
  {f : List Token → α × List Token}

/-- What a reader leaves are tokens that it was given. -/
theorem Takes.mem (hk : Takes k f) (ht : t ∈ (f ts).2) : t ∈ ts := by
  obtain ⟨taken, -, hsplit, -⟩ := hk ts
  rw [hsplit]
  exact List.mem_append_right taken ht

/-- From tokens that names can be made of, a reader makes what satisfies `P`. -/
def Gives (P : α → Prop) (f : List Token → α × List Token) : Prop :=
  ∀ ts, (∀ t ∈ ts, t.Spelled) → P (f ts).1

theorem Gives.bind {g : α → List Token → β × List Token} (hf : Gives P f) (hk : Takes k f)
    (hg : ∀ x, P x → Gives Q (g x)) : Gives Q fun ts => g (f ts).1 (f ts).2 := by
  intro ts hts
  exact hg _ (hf ts hts) (f ts).2 fun t ht => hts t (hk.mem ht)

theorem Gives.map {c : α → β} (hf : Gives P f) (hc : ∀ x, P x → Q (c x)) :
    Gives Q fun ts => (c (f ts).1, (f ts).2) :=
  fun ts hts => hc _ (hf ts hts)

theorem Gives.trivial : Gives (fun _ => True) f := fun _ _ => .intro

theorem gives_identifier? : Gives (fun o => ∀ s ∈ o, IsIdentifier s) identifier? := by
  intro ts hts
  cases ts with
  | nil => simp [identifier?]
  | cons t ts =>
    by_cases hi : t.kind = .identifier
    · simpa [identifier?, hi] using (hts t (by simp)).identifier hi
    · simp [identifier?, hi]

theorem gives_name : Gives (fun s => s = "" ∨ IsIdentifier s) name := by
  refine Gives.map (c := (·.getD "")) gives_identifier? fun o ho => ?_
  cases o with
  | none => exact .inl rfl
  | some s => exact .inr (ho s rfl)

theorem gives_target? : Gives (fun o => ∀ s ∈ o, IsIdentifier s) target? := by
  intro ts hts
  cases ts with
  | nil => simp [target?]
  | cons t ts =>
    rw [target?]
    split
    · exact gives_identifier? ts fun u hu => hts u (List.mem_cons_of_mem t hu)
    · simp

theorem gives_namesFrom (close : Symbol) {done : List String} (hdone : ∀ s ∈ done, IsIdentifier s) :
    Gives (fun names => ∀ s ∈ names, IsIdentifier s) (namesFrom close done) := by
  intro ts hts
  induction ts generalizing done with
  | nil => simpa [namesFrom] using hdone
  | cons t ts ih =>
    obtain ⟨ht, hts⟩ := List.forall_mem_cons.mp hts
    rw [namesFrom]
    split
    · simpa using hdone
    · split
      · next hi => exact ih (List.forall_mem_cons.mpr ⟨ht.identifier hi, hdone⟩) hts
      · exact ih hdone hts

theorem gives_names (opening close : Symbol) :
    Gives (fun names => ∀ s ∈ names, IsIdentifier s) (names opening close) := by
  intro ts hts
  cases ts with
  | nil => simp [names]
  | cons t ts =>
    rw [names]
    split
    · exact gives_namesFrom close (by simp) ts (List.forall_mem_cons.mp hts).2
    · simp

theorem gives_attributesFrom {done : Attributes} (hdone : ∀ e ∈ done.entries, IsIdentifier e.1) :
    Gives (fun m : Attributes => ∀ e ∈ m.entries, IsIdentifier e.1) (attributesFrom done) := by
  intro ts hts
  fun_induction attributesFrom done ts with
  | case1 | case2 | case3 | case4 => exact hdone
  | case5 done t _ hi assign _ value rest hv ih =>
    simp only [List.forall_mem_cons] at hts
    refine ih (fun e he => ?_) hts.2.2.2
    rcases SortedMap.mem_insertInto he with rfl | he
    · exact hts.1.identifier hi
    · exact hdone e he
  | case6 _ _ _ _ _ _ _ _ _ ih => exact ih hdone fun u hu => hts u (.tail _ (.tail _ hu))
  | case7 _ _ _ _ _ _ _ ih | case8 _ _ _ _ _ ih => exact ih hdone fun u hu => hts u (.tail _ hu)

theorem specifier_of_token (ht : t.Spelled) (hn : namesModulePart t.kind = true) :
    t.text = "*" ∨ IsIdentifier t.text := by
  simp only [namesModulePart, Bool.or_eq_true, decide_eq_true_eq] at hn
  rcases hn with hi | hm
  · exact .inr (ht.identifier hi)
  · exact .inl (ht.multiply hm)

theorem gives_specifiersFrom (braced : Bool) {done : List String}
    (hdone : ∀ s ∈ done, IsSpecifier s) :
    Gives (fun specifiers => ∀ s ∈ specifiers, IsSpecifier s) (specifiersFrom braced done) := by
  have hpart {done : List String} {t : Token} (hdone : ∀ s ∈ done, IsSpecifier s)
      (ht : t.Spelled) (hn : namesModulePart t.kind = true) :
      ∀ s ∈ t.text :: done, IsSpecifier s :=
    List.forall_mem_cons.mpr ⟨⟨t.text, specifier_of_token ht hn, .inl rfl⟩, hdone⟩
  intro ts hts
  fun_induction specifiersFrom braced done ts with
  | case1 | case8 | case9 => simpa using hdone
  | case2 done t hn | case3 done t hn =>
    exact fun s hs => hpart hdone (hts t (.head _)) hn s (List.mem_reverse.mp hs)
  | case4 done t hn as _ other rest ho ih =>
    simp only [List.forall_mem_cons] at hts
    refine ih (List.forall_mem_cons.mpr ⟨?_, hdone⟩) hts.2.2.2
    exact ⟨t.text, specifier_of_token hts.1 hn, .inr ⟨other.text, hts.2.2.1.identifier ho, rfl⟩⟩
  | case5 done t hn as _ other rest _ ih =>
    exact ih (hpart hdone (hts t (.head _)) hn) fun u hu => hts u (.tail _ (.tail _ hu))
  | case6 done t hn as rest _ ih =>
    exact ih (hpart hdone (hts t (.head _)) hn) fun u hu => hts u (.tail _ hu)
  | case7 done t rest _ _ ih => exact ih hdone fun u hu => hts u (.tail _ hu)

theorem gives_specifiers : Gives (fun specifiers => ∀ s ∈ specifiers, IsSpecifier s) specifiers := by
  intro ts hts
  cases ts with
  | nil => simp [specifiers]
  | cons t ts =>
    rw [specifiers]
    split
    · exact gives_specifiersFrom true (by simp) ts (List.forall_mem_cons.mp hts).2
    · exact gives_specifiersFrom false (by simp) (t :: ts) hts

/-- A statement up to its body whose names are identifiers. -/
def Opening.Named : Opening → Prop
  | whole node => node.Named
  | construct header name attributes => Construct.Named header name attributes

theorem gives_opened (header : Header) {name : String} (hh : header.Named)
    (hn : name = "" ∨ IsIdentifier name) : Gives Opening.Named (opened header name) := by
  have hkeys : Gives _ (attributesFrom .empty) := gives_attributesFrom (by simp [SortedMap.empty])
  exact Gives.map (c := Opening.construct header name) hkeys fun attributes hk => ⟨hn, hh, hk⟩

theorem gives_imports (location : Location) :
    Gives (fun node : Node => node.Named) (imports location) := by
  rw [funext imports_eq]
  exact fun ts hts => gives_specifiers ts hts

theorem gives_exports (location : Location) :
    Gives (fun node : Node => node.Named) (exports location) := by
  intro ts hts
  refine gives_specifiers _ fun t ht => hts t ?_
  split at ht
  · exact List.mem_of_mem_tail ht
  · exact ht

theorem gives_type (location : Location) : Gives Opening.Named (type location) := by
  rw [funext (type_eq location)]
  refine gives_name.bind takes_name (k := .type) fun name hn => ?_
  intro ts _
  have hnamed (definition : Option String) : Construct.Named (.type definition) name .empty :=
    ⟨hn, .intro, by simp [SortedMap.empty]⟩
  rw [typeEnd]
  split
  · exact hnamed _
  · exact hnamed _

/-- The names in the heading of a statement are identifiers. -/
theorem gives_opening (location : Location) (ho : k.opensConstruct = true) :
    ∃ f, Gives Opening.Named f ∧ ∀ ts, opening k location ts = some (f ts) := by
  cases k with
  | block b =>
    exact ⟨_, gives_name.bind takes_name (k := .block b) fun name hn =>
      gives_opened (.plain b) .intro hn, fun ts => rfl⟩
  | component =>
    exact ⟨_, gives_name.bind takes_name (k := .component) fun name hn =>
      (gives_names .openingTagStart .tagEnd).bind (takes_names rfl) (k := .component)
        fun params hp => gives_opened (.component params) hp hn, fun ts => rfl⟩
  | event =>
    exact ⟨_, gives_name.bind takes_name (k := .event) fun name hn =>
      gives_target?.bind takes_target? (k := .event) fun target ht =>
        gives_opened (.event target) ht hn, fun ts => rfl⟩
  | route =>
    refine ⟨_, Gives.bind (P := fun _ => True) .trivial takes_string? (k := .route) fun path _ =>
      Gives.bind (P := fun _ => True) .trivial (takes_skip (by simp) rfl) (k := .route) fun _ _ =>
        gives_identifier?.bind takes_identifier? (k := .route) fun shown hs =>
          gives_opened (.route path shown) hs (.inl rfl), fun ts => rfl⟩
  | type => exact ⟨_, gives_type location, fun ts => rfl⟩
  | hook =>
    exact ⟨_, gives_name.bind takes_name (k := .hook) fun name hn =>
      (gives_names .leftParen .rightParen).bind (takes_names rfl) (k := .hook)
        fun params hp => gives_opened (.hook params) hp hn, fun ts => rfl⟩
  | imports =>
    exact ⟨_, Gives.map (c := Opening.whole) (gives_imports location) fun _ h => h, fun ts => rfl⟩
  | exports =>
    exact ⟨_, Gives.map (c := Opening.whole) (gives_exports location) fun _ h => h, fun ts => rfl⟩
  | source | renamed | reserved => cases ho

end Heading

namespace Parse

variable {limit : Option Nat} {depth : Nat} {t : Token} {ts after rest heading : List Token}
  {node : Node} {header : Header} {name : String} {attributes : Attributes}
  {log : List (Nat × Token)} {nodes : List Node} {limited : Bool}

theorem opening_named {o : Heading.Opening} (hts : ∀ u ∈ ts, u.Spelled)
    (h : opening t ts = some (o, after)) : o.Named := by
  have ho := opens_of_opening h
  cases hk : t.kind with
  | keyword k =>
    rw [hk] at ho
    obtain ⟨f, hf, hopen⟩ := Heading.gives_opening t.location ho
    rw [opening, hk] at h
    have hts' : f ts = (o, after) := Option.some.inj ((hopen ts).symm.trans h)
    have hnamed := hf ts hts
    rwa [hts'] at hnamed
  | _ => simp [hk, Token.Kind.opensConstruct] at ho

theorem LeafHeading.named (h : LeafHeading t heading node after)
    (hts : ∀ u ∈ heading ++ after, u.Spelled) : node.Named := by
  obtain ⟨_, ⟨⟩, ho⟩ | ⟨header, name, attributes, rest, ⟨⟩, -, -, ho⟩ | ⟨_, _, _, _, ⟨⟩, _⟩ :=
    start_cases (h.read after rfl)
  · exact opening_named hts ho
  · exact opening_named hts ho

theorem BlockHeading.named (h : BlockHeading t heading header name attributes)
    (hts : ∀ u ∈ heading, u.Spelled) : Construct.Named header name attributes := by
  obtain ⟨_, ⟨⟩, _⟩ | ⟨_, _, _, _, ⟨⟩, _⟩ | ⟨_, _, _, brace, ⟨⟩, -, ho⟩ := start_cases (h.read [])
  exact opening_named (by simpa using hts) ho

/-- All nodes that are read from tokens are named by identifiers, at every depth. -/
theorem Reading.named (h : Reading limit depth log rest nodes limited)
    (hts : ∀ t ∈ tokensOf log ++ rest, t.Spelled) (level : Nat) :
    ∀ e ∈ Node.preorderAll level nodes, e.2.Named :=
  h.forall_nodes (fun h hts => h.named hts) (fun h hts _ _ => h.named hts) hts level

end Parse

/-- The names that stand in a header. -/
def Header.names : Header → List String
  | component typeParams => typeParams
  | event target => target.toList
  | route _ shown => shown.toList
  | hook parameters => parameters
  | plain _ | type _ => []

/-- All names that stand in a node. -/
def Node.names : Node → List String
  | construct header name attributes _ _ => name :: (header.names ++ attributes.entries.map Prod.fst)
  | imports specifiers _ _ | exports specifiers _ _ _ => specifiers
  | element .. | text .. | expression .. => []

open Text (Clean)

theorem IsIdentifier.clean {word : String} (h : IsIdentifier word) : Clean word := by
  have hparts : Text.delimiters.all (fun c => !Token.isWordPart c) = true := by decide +kernel
  intro c hc hd
  have hno := List.all_eq_true.mp hparts c hd
  rw [h.parts c hc] at hno
  cases hno

theorem IsSpecifier.clean {text : String} (h : IsSpecifier text) : Clean text := by
  obtain ⟨part, hpart, htext⟩ := h
  have hstar : Clean "*" := Text.not_mem_of_all (by decide)
  have has : Clean " as " := Text.not_mem_of_all (by decide)
  have hclean : Clean part := by
    rcases hpart with rfl | hpart
    · exact hstar
    · exact hpart.clean
  rcases htext with rfl | ⟨other, hother, rfl⟩
  · exact hclean
  · exact (hclean.append has).append hother.clean

theorem Header.Named.identifiers {header : Header} (h : header.Named) :
    ∀ s ∈ header.names, IsIdentifier s := by
  cases header with
  | plain | type => exact fun _ hs => nomatch hs
  | component | hook => exact h
  | event | route => simpa [names, Header.Named] using h

theorem Node.Named.clean {n : Node} (h : n.Named) : ∀ s ∈ n.names, Clean s := by
  cases n with
  | construct header name attributes children location =>
    intro s hs
    rcases List.mem_cons.mp hs with rfl | hs
    · rcases h.name with rfl | hn
      · exact Text.clean_empty
      · exact hn.clean
    · rcases List.mem_append.mp hs with hs | hs
      · exact (h.header.identifiers s hs).clean
      · obtain ⟨e, he, rfl⟩ := List.mem_map.mp hs
        exact (h.keys e he).clean
  | imports | exports => exact fun s hs => (h s hs).clean
  | element | text | expression => cases h

/-- All names in the document of a text are identifiers, at every depth. As they are, in lower case,
capitalized and as tags of elements, they are free of all that ends the text around them. -/
theorem names_are_identifiers (source : String) :
    Keyword.all.length = 44 ∧ (Keyword.all.map Keyword.spelling).Nodup ∧
      ∀ e ∈ (Program.parseSource source).nodes, e.2.Named ∧
        ∀ s ∈ e.2.names, Clean s ∧ Clean (Text.toLower s) ∧ Clean (Text.capitalize s) ∧
          Clean (Text.elementTag s) := by
  refine ⟨by decide, by decide, fun e he => ?_⟩
  obtain ⟨log, rest, nodes, limited, hts, hread⟩ :=
    Parse.exists_reading maxDepth 0 (Program.significant (Token.scan source))
  have hspelled : ∀ t ∈ Parse.tokensOf log ++ rest, t.Spelled := by
    intro t ht
    rw [← hts] at ht
    exact Token.spelled_scan source t (List.mem_of_mem_filter ht)
  have hnodes : (Program.parseSource source).nodes = Node.preorderAll 1 nodes := by
    rw [Program.parseSource, Program.parse, hts, Parse.statements_eq_body, hread.body_eq]
    rfl
  rw [hnodes] at he
  have hnamed := hread.named hspelled 1 e he
  exact ⟨hnamed, fun s hs =>
    have hclean := hnamed.clean s hs
    ⟨hclean, hclean.toLower, hclean.capitalize, hclean.elementTag⟩⟩

/-- An event in a component has its own name and that of its target. -/
theorem names_are_identifiers_sample :
    ∃ e ∈ (Program.parseSource
        "component Card<T, U> \x7b event Click on Button \x7b \x7d \x7d").nodes,
      e.2.names = ["Click", "Button"] ∧ e.2.Named ∧
        ∀ s ∈ e.2.names, Clean s ∧ Clean (Text.toLower s) ∧ Clean (Text.capitalize s) ∧
          Clean (Text.elementTag s) := by
  obtain ⟨e, he, hnames⟩ : ∃ e ∈ (Program.parseSource
      "component Card<T, U> \x7b event Click on Button \x7b \x7d \x7d").nodes,
      e.2.names = ["Click", "Button"] := by
    decide +kernel
  exact ⟨e, he, hnames, (names_are_identifiers _).2.2 e he⟩

end Folio
