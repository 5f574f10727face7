import Folio.Proofs.Grammar
import Folio.Proofs.Identifiers
import Folio.Proofs.LiteralValues

/-! Texts that spell marks of the grammar. Where each token of a text ends before the next one starts,
whatever names and values stand in it, the tokenizer finds the marks that the text was made of. -/

namespace Folio

section Spelling
open Token
open Grammar (Writes)

variable {a b : List Grammar.Mark} {m : Grammar.Mark} {cs ds rest : List Char} {kind : Kind}

/-- In front of `rest` a text is cut into tokens for the marks. -/
def Spells (ms : List Grammar.Mark) (cs rest : List Char) : Prop :=
  Writes ms (matter (segments (cs ++ rest))) (matter (segments rest))

theorem Spells.append (h : Spells a cs (ds ++ rest)) (h' : Spells b ds rest) :
    Spells (a ++ b) (cs ++ ds) rest := by
  rw [Spells, List.append_assoc]
  exact Grammar.writes_append.mpr ⟨_, h, h'⟩

theorem spells_nothing : Spells [] [] rest := .nil _

theorem Spells.after_blank (c : Char) (hc : Text.isBlank c = true) (h : Spells b ds rest) :
    Spells b (c :: ds) rest := by
  rwa [Spells, List.cons_append, matter_blank hc]

theorem spells_token (h : Lexeme kind cs rest) (hk : kind.isTrivia = false)
    (hm : m.Fits ⟨kind, String.ofList cs, .start⟩) : Spells [m] cs rest := by
  have hcs : matter [.token kind cs] = [⟨kind, String.ofList cs, .start⟩] := by
    simp [matter, Program.significant, Segment.at, hk]
  rw [Spells, matter_token h, hcs]
  exact .cons hm (.nil _)

/-- A word that stands before this text ends there. -/
def EndsWord (rest : List Char) : Prop := ∀ c ∈ rest.head?, isWordPart c = false

theorem endsWord_cons (c : Char) (hc : isWordPart c = false) : EndsWord (c :: rest) := by
  intro d hd
  cases hd
  exact hc

theorem isIdentifier_iff {word : String} : IsIdentifier word ↔
    (word.toList.head?.any startsWord && word.toList.all isWordPart &&
      !(Keyword.all.map Keyword.spelling).contains word) = true := by
  simp only [Bool.and_eq_true, Option.any_eq_true, List.all_eq_true, Bool.not_eq_true',
    List.contains_eq_mem, decide_eq_false_iff_not]
  constructor
  · rintro ⟨hstarts, hparts, hfree⟩
    exact ⟨⟨hstarts, hparts⟩, hfree⟩
  · rintro ⟨⟨hstarts, hparts⟩, hfree⟩
    exact ⟨hstarts, hparts, hfree⟩

instance (word : String) : Decidable (IsIdentifier word) := decidable_of_iff _ isIdentifier_iff.symm

theorem spells_name {word : String} (h : IsIdentifier word) (hr : EndsWord rest) :
    Spells [.name word] word.toList rest := by
  obtain ⟨c, hc, hstart⟩ := h.starts
  obtain ⟨run, hrun⟩ := List.head?_eq_some_iff.mp hc
  have hlex : Lexeme .identifier word.toList rest := by
    rw [hrun]
    refine .identifier hstart ⟨fun d hd => h.parts d ?_, hr⟩ fun k hk => h.free ?_
    · rw [hrun]
      exact List.mem_cons_of_mem c hd
    · rw [← hrun, String.ofList_toList] at hk
      exact List.mem_map.mpr ⟨k, k.mem_all, hk⟩
  exact spells_token hlex rfl ⟨rfl, String.ofList_toList⟩

theorem lexeme_keyword (k : Keyword) (hr : EndsWord rest) :
    Lexeme (.keyword k) k.spelling.toList rest := by
  have hall : Keyword.all.all (fun k => k.spelling.toList.head?.any startsWord &&
      k.spelling.toList.all isWordPart) = true := by decide +kernel
  have hk := List.all_eq_true.mp hall k k.mem_all
  rw [Bool.and_eq_true, Option.any_eq_true, List.all_eq_true] at hk
  obtain ⟨⟨c, hc, hstart⟩, hparts⟩ := hk
  obtain ⟨run, hrun⟩ := List.head?_eq_some_iff.mp hc
  rw [hrun] at hparts ⊢
  refine .keyword k hstart ⟨fun d hd => hparts d (List.mem_cons_of_mem c hd), hr⟩ ?_
  rw [← hrun, String.ofList_toList]

theorem spells_opener (k : Keyword) (hr : EndsWord rest) :
    Spells [.opener k .start] k.spelling.toList rest :=
  spells_token (lexeme_keyword k hr) rfl ⟨rfl, rfl⟩

theorem spells_word (k : Keyword) (hr : EndsWord rest) :
    Spells [.word k] k.spelling.toList rest :=
  spells_token (lexeme_keyword k hr) rfl rfl

theorem lexeme_lone {s : Symbol} {c : Char} (hs : s.spelling = [c]) (hc : c ≠ '/')
    (hp : Symbol.longest? c rest = some s) : Lexeme (.symbol s) s.spelling rest := by
  refine .symbol rfl ?_ ?_
  · rw [hs]
    exact Symbol.longest?_eq_some.mp hp
  · rw [hs]
    simp [startsComment_cons, hc]

/-- Symbols that are the start of no other symbol. -/
def loneSymbols : List Symbol := [.leftBrace, .rightBrace, .comma, .semicolon, .multiply]

theorem lexeme_symbol {s : Symbol} (hs : s ∈ loneSymbols) : Lexeme (.symbol s) s.spelling rest := by
  simp only [loneSymbols, List.mem_cons, List.not_mem_nil, or_false] at hs
  rcases hs with rfl | rfl | rfl | rfl | rfl
  all_goals exact lexeme_lone rfl (by decide) (by cases rest <;> rfl)

theorem spells_symbol {s : Symbol} (hs : s ∈ loneSymbols) : Spells [.symbol s] s.spelling rest :=
  spells_token (lexeme_symbol hs) rfl rfl

/-- Whether a text can stand between two quotes. -/
def isContent (quote : Char) : List Char → Bool
  | [] => true
  | [c] => c ≠ quote && c ≠ '\\'
  | c :: d :: cs =>
    if c = '\\' then isContent quote cs else c ≠ quote && isContent quote (d :: cs)

theorem isContent_iff {quote : Char} : isContent quote cs = true ↔ Content quote cs := by
  constructor
  · intro h
    fun_induction isContent quote cs with
    | case1 => exact .nil
    | case2 c =>
      simp only [Bool.and_eq_true, decide_eq_true_eq] at h
      exact .plain h.1 h.2 .nil
    | case3 d cs ih => exact .escape d (ih h)
    | case4 c d cs hc ih =>
      simp only [Bool.and_eq_true, decide_eq_true_eq] at h
      exact .plain h.1 hc (ih h.2)
  · intro h
    induction h with
    | nil => rfl
    | @plain c cs hq hb _ ih => cases cs <;> simp_all [isContent]
    | escape c _ ih => simpa [isContent] using ih

instance (quote : Char) (cs : List Char) : Decidable (Content quote cs) :=
  decidable_of_iff _ isContent_iff

theorem spells_literal {quote : Char} {value : String} (hq : quote = '"' ∨ quote = '\'')
    (hv : Content quote value.toList) :
    Spells [.literal value] (quote :: (value.toList ++ [quote])) rest := by
  refine spells_token (.string hq (.closed hv rest)) rfl ⟨rfl, ?_⟩
  simp [Token.value, unquoted_closed hv]

/-- A text is parsed like any tokens for its marks, but for the places of its nodes. -/
theorem exists_tokens {text : String} (h : Spells a text.toList []) :
    ∃ ts, Writes a ts [⟨.eof, "", .start⟩] ∧
      (Program.parseSource text).statements.map (Node.relocate fun _ => .start) =
        (Parse.body maxDepth 0 ts).statements := by
  have hwrites := h.append_rest [⟨.eof, "", .start⟩]
  rw [List.append_nil, ← relocate_placed .start, ← scan_eq, segments] at hwrites
  refine ⟨_, hwrites, ?_⟩
  rw [Parse.body_map, ← Node.relocateAll_eq_map]
  rfl

end Spelling

end Folio
