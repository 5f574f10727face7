import Folio.Proofs.Alphabet
import Folio.Proofs.Headings
import Folio.Tree.Json
import Mathlib.Data.List.Nodup

/-! Decoding gives back every tree that was encoded. The names of the members of an object differ,
so that each part of a node is found under its own name. -/

namespace Folio

namespace Json

theorem mapM_map {α β : Type} (encode : α → β) (decode : β → Option α)
    (h : ∀ a, decode (encode a) = some a) (items : List α) :
    (items.map encode).mapM decode = some items := by
  induction items with
  | nil => rfl
  | cons a items ih => simp [h a, ih]

theorem strings?_strings (texts : List String) : (strings texts).strings? = some texts :=
  mapM_map string string? (fun _ => rfl) texts

theorem optional?_stringOrNull (text : Option String) :
    optional? string? (some (stringOrNull text)) = some text := by
  cases text with
  | none => rfl
  | some s => rfl

section Records
variable {members : List (String × Json)}

theorem lookup_of_mem (h : (members.map Prod.fst).Nodup) :
    ∀ m ∈ members, members.lookup m.1 = some m.2 := by
  induction members with
  | nil => simp
  | cons m members ih =>
    obtain ⟨hm, hnodup⟩ := List.nodup_cons.mp h
    intro m' hm'
    rcases List.mem_cons.mp hm' with rfl | hm'
    · exact List.lookup_cons_self
    · have hne : m'.1 ≠ m.1 := by
        intro he
        apply hm
        rw [← he]
        exact List.mem_map_of_mem hm'
      rw [List.lookup_cons, beq_eq_false_iff_ne.mpr hne]
      exact ih hnodup m' hm'

theorem record?_object (h : (members.map Prod.fst).Nodup) (names : List String) (least : Nat) :
    (object members).record? names least = some fun name => members.lookup name := by
  have hone : ∀ name, (members.filter (·.1 == name)).length ≤ 1 := by
    intro name
    have hcount := List.nodup_iff_count_le_one.mp h name
    rwa [List.count_eq_countP, List.countP_map, List.countP_eq_length_filter] at hcount
  rw [record?, if_pos (List.all_eq_true.mpr fun name _ => decide_eq_true (hone name))]

end Records

end Json

open Json

theorem Location.ofJson?_toJson (l : Location) : ofJson? l.toJson = some l := by
  have hword : ∀ n : UInt32, (nat n.toNat).word32? = some n := by
    intro n
    simp [word32?, nat, natBelow?, n.toNat_lt]
  rw [ofJson?, toJson, record?_object (by simp)]
  simp [List.lookup_cons, hword]

theorem Attributes.ofJson?_toJson (a : Attributes) : ofJson? a.toJson = some a := by
  have hpairs : a.toJson.pairs? = some a.entries := by
    apply mapM_map
    intro e
    rfl
  rw [ofJson?, hpairs, Option.map_some, SortedMap.ofList_entries]

/-- A header is decoded from its own members, whatever others there are. -/
theorem Header.ofMembers?_members (header : Header) {member : String → Option Json}
    (h : ∀ m ∈ header.members, member m.1 = some m.2) :
    ofMembers? header.keyword.spelling member = some header := by
  rw [ofMembers?, Keyword.ofSpelling?_spelling]
  cases header with
  | plain block => rfl
  | component typeParams => simp_all [keyword, members, strings?_strings]
  | event target => simp_all [keyword, members, optional?_stringOrNull]
  | route path shown => simp_all [keyword, members, optional?_stringOrNull]
  | type definition => simp_all [keyword, members, optional?_stringOrNull]
  | hook parameters => simp_all [keyword, members, strings?_strings]

namespace Node

theorem locationOf?_toJson {member : String → Option Json} {location : Location}
    (h : member "location" = some location.toJson) : locationOf? member = some location := by
  rw [locationOf?, h]
  exact location.ofJson?_toJson

/-- An object whose members have different names is decoded from what is under each name. -/
theorem ofJson?_object {members : List (String × Json)} {kind : String} {n : Node}
    (h : ((("type", Json.string kind) :: members).map Prod.fst).Nodup) (isNested : Bool)
    (hn : ∀ member : String → Option Json, (∀ m ∈ members, member m.1 = some m.2) →
      ofMembers? kind member (childrenOfMembers? members) = some n) :
    ofJson? isNested (.object (("type", .string kind) :: members)) = some n := by
  have hmember := hn (fun name => (("type", Json.string kind) :: members).lookup name) fun m hm =>
    lookup_of_mem h m (List.mem_cons_of_mem _ hm)
  simpa [ofJson?, record?_object h, kindOf?, childrenOfMembers?] using hmember

/-- The kinds of the nodes that are no constructs. -/
def otherKinds : List String :=
  [Keyword.imports.spelling, Keyword.exports.spelling, "element", "text", "expression"]

theorem spelling_not_mem (header : Header) : header.keyword.spelling ∉ otherKinds := by
  cases header with
  | plain block => cases block <;> decide
  | component | event | route | type | hook =>
    dsimp only [Header.keyword]
    decide

theorem ofMembers?_construct (header : Header) {name : String} {attributes : Attributes}
    {children : List Node} {location : Location} {member : String → Option Json}
    (hname : member "name" = some (.string name))
    (hattributes : member "attributes" = some attributes.toJson)
    (hlocation : member "location" = some location.toJson)
    (hheader : ∀ m ∈ header.members, member m.1 = some m.2) :
    ofMembers? header.keyword.spelling member (some children) =
      some (construct header name attributes children location) := by
  have hkind := spelling_not_mem header
  simp only [otherKinds, List.mem_cons, List.not_mem_nil, or_false, not_or] at hkind
  simp [ofMembers?, hkind, header.ofMembers?_members hheader, hname, hattributes, string?,
    attributes.ofJson?_toJson, locationOf?_toJson hlocation]

theorem childrenOfMembers?_cons {name : String} (h : name ≠ "children") (value : Json)
    (members : List (String × Json)) :
    childrenOfMembers? ((name, value) :: members) = childrenOfMembers? members := by
  rw [childrenOfMembers?.eq_def]
  simp [h]

mutual

theorem ofJson?_toJson (isNested : Bool) (n : Node) : ofJson? isNested n.toJson = some n := by
  cases n with
  | construct header name attributes children location =>
    have hchildren := listOfJson?_listToJson true children
    rw [toJson, List.cons_append]
    apply ofJson?_object
    · cases header <;> simp [Header.members]
    intro member hm
    simp only [List.nil_append, List.cons_append, List.forall_mem_cons] at hm ⊢
    obtain ⟨hname, hattributes, -, hlocation, hheader⟩ := hm
    rw [childrenOfMembers?_cons (by decide), childrenOfMembers?_cons (by decide),
      childrenOfMembers?, if_pos rfl, hchildren]
    exact ofMembers?_construct header hname hattributes hlocation hheader
  | imports specifiers source location =>
    rw [toJson]
    apply ofJson?_object (by simp)
    intro member hm
    simp only [List.forall_mem_cons] at hm
    obtain ⟨hspecifiers, hsource, hlocation, -⟩ := hm
    simp [ofMembers?, hspecifiers, hsource, strings?_strings, optional?_stringOrNull,
      locationOf?_toJson hlocation]
  | exports specifiers source isDefault location =>
    rw [toJson]
    apply ofJson?_object (by simp)
    intro member hm
    simp only [List.forall_mem_cons] at hm
    obtain ⟨hspecifiers, hsource, hdefault, hlocation, -⟩ := hm
    simp [ofMembers?, hspecifiers, hsource, hdefault, strings?_strings, optional?_stringOrNull,
      bool?, locationOf?_toJson hlocation, Keyword.spelling]
  | element tag attributes children selfClosing location =>
    have hchildren := listOfJson?_listToJson true children
    rw [toJson]
    apply ofJson?_object (by simp)
    intro member hm
    simp only [List.forall_mem_cons] at hm
    obtain ⟨htag, hattributes, -, hclosing, hlocation, -⟩ := hm
    simp [ofMembers?, htag, hattributes, hclosing, hchildren, childrenOfMembers?, string?, bool?,
      attributes.ofJson?_toJson, locationOf?_toJson hlocation, Keyword.spelling]
  | text value location =>
    rw [toJson]
    apply ofJson?_object (by simp)
    intro member hm
    simp only [List.forall_mem_cons] at hm
    obtain ⟨hvalue, hlocation, -⟩ := hm
    simp [ofMembers?, hvalue, string?, locationOf?_toJson hlocation, Keyword.spelling]
  | expression code location =>
    rw [toJson]
    apply ofJson?_object (by simp)
    intro member hm
    simp only [List.forall_mem_cons] at hm
    obtain ⟨hcode, hlocation, -⟩ := hm
    simp [ofMembers?, hcode, string?, locationOf?_toJson hlocation, Keyword.spelling]

theorem listOfJson?_listToJson (isNested : Bool) (ns : List Node) :
    listOfJson? isNested (listToJson ns) = some ns := by
  cases ns with
  | nil => rw [listToJson, listOfJson?]
  | cons n ns =>
    rw [listToJson, listOfJson?, ofJson?_toJson isNested n, listOfJson?_listToJson isNested ns]
    rfl

end

end Node

/-- No tree is changed by encoding and decoding it. -/
theorem Program.toJson_round_trip (p : Program) : ofJson? p.toJson = some p := by
  rw [ofJson?, toJson, record?_object (by simp)]
  simp [items?, Node.listOfJson?_listToJson]

end Folio
