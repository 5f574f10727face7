import Folio.Cache
import Folio.Proofs.JsonReading

/-! The text of a kept result is read back as that result, if it took no time. -/

namespace Folio

open Json Json.Reader

theorem eq_ok_of_toOption {ε α : Type} {x : Except ε α} {a : α} (h : x.toOption = some a) :
    x = .ok a := by
  cases x with
  | error e => cases h
  | ok b => cases h; rfl

@[simp]
theorem utf8_open : Text.utf8 "\x7b" = [code '{'] := by decide

@[simp]
theorem utf8_close : Text.utf8 "\x7d" = [code '}'] := by decide

@[simp]
theorem utf8_colon : Text.utf8 ":" = [code ':'] := by decide

@[simp]
theorem utf8_comma : Text.utf8 "," = [code ','] := by decide

@[simp]
theorem utf8_empty : Text.utf8 "" = [] := by decide

theorem utf8_writeItems (out before : String) (xs : List String) :
    Text.utf8 (Json.writeItems out before (xs.map .string)) =
      Text.utf8 out ++ itemsText (Text.utf8 before) xs := by
  induction xs generalizing out before with
  | nil =>
    have hend : Text.utf8 "]" = [code ']'] := by decide
    simp [Json.writeItems, itemsText, hend]
  | cons x xs ih =>
    simp [Json.writeItems, Json.write, itemsText, ih]

namespace Result

/-- The members of the text of a result that took no time. -/
def fields (r : Result) : List (Reader.Field Result) :=
  [⟨"success", Text.utf8 (if r.success then "true" else "false"),
      fun s => { s with success := r.success }⟩,
    ⟨"markup", Text.utf8 (stringText r.output.markup),
      fun s => { s with output.markup := r.output.markup }⟩,
    ⟨"style", Text.utf8 (stringText r.output.style),
      fun s => { s with output.style := r.output.style }⟩,
    ⟨"script", Text.utf8 (stringText r.output.script),
      fun s => { s with output.script := r.output.script }⟩,
    ⟨"errors", code '[' :: itemsText [] r.errors, fun s => { s with errors := r.errors }⟩,
    ⟨"warnings", code '[' :: itemsText [] r.warnings, fun s => { s with warnings := r.warnings }⟩,
    ⟨"elapsedMs", [code '0', code '.', code '0'], fun s => { s with elapsed := ⟨0⟩ }⟩]

theorem utf8_write {r : Result} (h : r.elapsed = ⟨0⟩) (out : String) :
    Text.utf8 (Json.write out r.toJson) = Text.utf8 out ++ code '{' :: fieldsText [] r.fields := by
  have hzero : realText (Duration.toMillis ⟨0⟩) = "0.0" := by decide +kernel
  have hbracket : Text.utf8 "[" = [code '['] := by decide
  have hnumber : Text.utf8 "0.0" = [code '0', code '.', code '0'] := by decide
  simp [toJson, members, Json.write, Json.writeMembers, strings, h, Number.text, hzero,
    utf8_writeItems, fields, fieldsText, hbracket, hnumber]

theorem reads_reader {r : Result} (h : r.elapsed = ⟨0⟩) {rest : List UInt8} :
    Reads Result.reader (code '{' :: fieldsText [] r.fields) r rest := by
  have hr : r.fields.foldl (fun s f => f.change s)
      { success := false, output := {}, errors := [], warnings := [] } = r := by
    cases r
    simp only at h
    subst h
    rfl
  conv => arg 3; rw [← hr]
  have hnames : (r.fields.map (·.name)).Nodup := by simp [fields]
  refine reads_fullRecord _ _ r.fields ?_ hnames rfl
  intro f hf
  simp only [fields, List.mem_cons, List.not_mem_nil, or_false] at hf
  rcases hf with rfl | rfl | rfl | rfl | rfl | rfl | rfl
  · exact ⟨_, rfl, rfl, fun rest _ => (reads_bool r.success).map _⟩
  · exact ⟨_, rfl, rfl, fun rest _ => (reads_text "a string" r.output.markup).map _⟩
  · exact ⟨_, rfl, rfl, fun rest _ => (reads_text "a string" r.output.style).map _⟩
  · exact ⟨_, rfl, rfl, fun rest _ => (reads_text "a string" r.output.script).map _⟩
  · exact ⟨_, rfl, rfl, fun rest _ => (reads_list _ _).map _⟩
  · exact ⟨_, rfl, rfl, fun rest _ => (reads_list _ _).map _⟩
  · refine ⟨_, rfl, rfl, fun rest hrest => ?_⟩
    have htime : Duration.ofMillisClamped (((Json.number (.real zero)).double?).getD 0.0) = .ok ⟨0⟩ :=
      eq_ok_of_toOption (by decide +kernel)
    have hz : Reads (anyNumber "f64") [code '0', code '.', code '0'] (.real zero) ([] ++ rest) :=
      reads_zero "f64" hrest
    refine hz.bind ?_
    simp only [htime]
    exact reads_pure _ rest

end Result

namespace Cache.Entry

/-- The members of the text of a kept result that took no time. -/
def fields (e : Entry) : List (Reader.Field Entry) :=
  [⟨"hash", Text.utf8 (stringText e.hash), fun s => { s with hash := e.hash }⟩,
    ⟨"result", code '{' :: fieldsText [] e.result.fields, fun s => { s with result := e.result }⟩]

theorem utf8_compact {e : Entry} (h : e.result.elapsed = ⟨0⟩) :
    Text.utf8 e.toJson.compact = code '{' :: fieldsText [] e.fields := by
  simp [toJson, compact, Json.write, Json.writeMembers, Result.utf8_write h, fields, fieldsText]

/-- The text of a kept result is read back as that result. -/
theorem read_compact {e : Entry} (h : e.result.elapsed = ⟨0⟩) : Entry.read e.toJson.compact = .ok e := by
  apply readWith_of_reads
  rw [utf8_compact h]
  have hnames : (e.fields.map (·.name)).Nodup := by simp [fields]
  refine reads_fullRecord _ _ e.fields ?_ hnames rfl
  intro f hf
  simp only [fields, List.mem_cons, List.not_mem_nil, or_false] at hf
  rcases hf with rfl | rfl
  · exact ⟨_, rfl, rfl, fun rest _ => (reads_text "a string" e.hash).map _⟩
  · exact ⟨_, rfl, rfl, fun rest _ => (Result.reads_reader h).map _⟩

end Cache.Entry

end Folio
