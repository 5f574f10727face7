import Folio.Proofs.EntryText

/-! The bytes that are digested for a text and its options. Nothing stands between the two, and a text
may end in what reads like options. Still each can be told from the bytes: the only opening brace in
the text of options is the one in front of it, so the last one of all bytes is where the options
start. -/

namespace Folio

open Json Json.Reader

/-- A byte that stands in no member, and neither between members nor behind them, is not in the text of
an object. -/
theorem notMem_fieldsText {σ : Type} {x : UInt8} {before : List UInt8} {fs : List (Reader.Field σ)}
    (hx : x ∉ [code ':', code ',', code '}']) (hb : x ∉ before)
    (h : ∀ f ∈ fs, x ∉ Text.utf8 (stringText f.name) ∧ x ∉ f.text) : x ∉ fieldsText before fs := by
  simp only [List.mem_cons, List.not_mem_nil, or_false, not_or] at hx
  obtain ⟨hcolon, hcomma, hclose⟩ := hx
  induction fs generalizing before with
  | nil => simpa [fieldsText] using hclose
  | cons f fs ih =>
    obtain ⟨hf, hfs⟩ := List.forall_mem_cons.mp h
    have hrest : x ∉ fieldsText [code ','] fs := ih (by simpa using hcomma) hfs
    simp only [fieldsText, List.mem_append, List.mem_cons, not_or]
    exact ⟨hb, hf.1, hcolon, hf.2, hrest⟩

namespace Options

/-- The members of the text of options. -/
def fields (o : Options) : List (Reader.Field Options) :=
  [⟨"minify", Text.utf8 (if o.minify then "true" else "false"),
      fun p => { p with minify := o.minify }⟩,
    ⟨"sourcemap", Text.utf8 (if o.sourcemap then "true" else "false"),
      fun p => { p with sourcemap := o.sourcemap }⟩,
    ⟨"treeshaking", Text.utf8 (if o.treeshaking then "true" else "false"),
      fun p => { p with treeshaking := o.treeshaking }⟩]

theorem utf8_compact (o : Options) :
    Text.utf8 o.toJson.compact = code '{' :: fieldsText [] o.fields := by
  simp [toJson, compact, Json.write, Json.writeMembers, fields, fieldsText]

/-- The text of options is read back as those options. -/
theorem read_compact (o : Options) : readWith reader o.toJson.compact = .ok o := by
  apply readWith_of_reads
  rw [utf8_compact]
  have hnames : (o.fields.map (·.name)).Nodup := by simp [fields]
  refine (reads_record _ _ o.fields ?_ hnames).map Partial.record
  intro f hf
  simp only [fields, List.mem_cons, List.not_mem_nil, or_false] at hf
  rcases hf with rfl | rfl | rfl
  · exact ⟨_, rfl, rfl, fun rest _ => (reads_bool o.minify).map _⟩
  · exact ⟨_, rfl, rfl, fun rest _ => (reads_bool o.sourcemap).map _⟩
  · exact ⟨_, rfl, rfl, fun rest _ => (reads_bool o.treeshaking).map _⟩

/-- No brace is opened inside the text of options. -/
theorem brace_notMem_fieldsText (o : Options) : code '{' ∉ fieldsText [] o.fields := by
  have hbool (b : Bool) : code '{' ∉ Text.utf8 (if b then "true" else "false") := by
    cases b <;> decide
  have hname : ∀ name ∈ ["minify", "sourcemap", "treeshaking"],
      code '{' ∉ Text.utf8 (stringText name) := by decide +kernel
  refine notMem_fieldsText (by decide) List.not_mem_nil ?_
  intro f hf
  simp only [fields, List.mem_cons, List.not_mem_nil, or_false] at hf
  rcases hf with rfl | rfl | rfl
  · exact ⟨hname "minify" (by simp), hbool o.minify⟩
  · exact ⟨hname "sourcemap" (by simp), hbool o.sourcemap⟩
  · exact ⟨hname "treeshaking" (by simp), hbool o.treeshaking⟩

end Options

namespace Cache

/-- Bytes, cut in front of the last opening brace. -/
def cutAtBrace? : List UInt8 → Option (List UInt8 × List UInt8)
  | [] => none
  | x :: xs =>
    ((cutAtBrace? xs).map fun cut => (x :: cut.1, cut.2)).or
      (if x = code '{' then some ([], x :: xs) else none)

/-- The text and the options that bytes are read as: the options start at the last opening brace. -/
def readInput? (bytes : List UInt8) : Option (String × Options) := do
  let cut ← cutAtBrace? bytes
  let source ← (Text.ofUtf8 cut.1).toOption
  let text ← (Text.ofUtf8 cut.2).toOption
  let options ← (readWith Options.reader text).toOption
  return (source, options)

theorem cutAtBrace?_none {bytes : List UInt8} (h : code '{' ∉ bytes) : cutAtBrace? bytes = none := by
  induction bytes with
  | nil => rfl
  | cons x xs ih =>
    have hx := List.ne_of_not_mem_cons h
    have hxs := List.not_mem_of_not_mem_cons h
    simp [cutAtBrace?, ih hxs, hx.symm]

theorem cutAtBrace?_append (front : List UInt8) {back : List UInt8} (h : code '{' ∉ back) :
    cutAtBrace? (front ++ code '{' :: back) = some (front, code '{' :: back) := by
  induction front with
  | nil => simp [cutAtBrace?, cutAtBrace?_none h]
  | cons x front ih => simp [cutAtBrace?, ih]

theorem cutAtBrace?_hashInput (source : String) (options : Options) :
    cutAtBrace? (hashInput source options) =
      some (Text.utf8 source, Text.utf8 options.toJson.compact) := by
  rw [hashInput, options.utf8_compact]
  exact cutAtBrace?_append _ options.brace_notMem_fieldsText

/-- The text and the options can be read back from the bytes that are digested. -/
theorem readInput?_hashInput (source : String) (options : Options) :
    readInput? (hashInput source options) = some (source, options) := by
  simp [readInput?, cutAtBrace?_hashInput, Text.ofUtf8_utf8, options.read_compact, Except.toOption]

theorem hashInput_injective {source source' : String} {options options' : Options}
    (h : hashInput source options = hashInput source' options') :
    source = source' ∧ options = options' := by
  have hread := readInput?_hashInput source options
  rw [h, readInput?_hashInput] at hread
  obtain ⟨rfl, rfl⟩ := Prod.mk.inj (Option.some.inj hread)
  exact ⟨rfl, rfl⟩

/-- Equal bytes are digested only for equal texts with equal options, whatever the texts end in: the
two are read back from the bytes. -/
theorem hashInput_unambiguous (source source' : String) (options options' : Options) :
    (hashInput source options = hashInput source' options' ↔
      source = source' ∧ options = options') ∧
    readInput? (hashInput source options) = some (source, options) := by
  refine ⟨⟨hashInput_injective, ?_⟩, readInput?_hashInput source options⟩
  rintro ⟨rfl, rfl⟩
  rfl

end Cache

end Folio
