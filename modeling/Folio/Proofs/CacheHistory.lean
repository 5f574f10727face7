import Folio.Proofs.PlainHistory

/-! Kept results over whole histories. As long as only looking up and keeping results touches their
files, every document is built from what it compiles to at that moment. -/

namespace Folio.History

variable {events : List Event} {d : Disk} {v : Visit} {source : String}

/-- All files of kept results that the history uses are fresh. -/
def Sound (events : List Event) (start d : Disk) : Prop :=
  ∀ p ∈ entries events start, Cache.Fresh (inputs events start) p d

/-- A document that is built while all files are fresh gets what it compiles to, and leaves them
fresh. -/
theorem Sound.visit {start : Disk} (ht : Cache.ToldApart (inputs events start))
    (hv : v ∈ visits events start) (h : Sound events start v.disk) (hs : v.source? = some source) :
    (∃ cached, (v.result source).1 = .ok (compile source v.config.compiler, cached)) ∧
      Sound events start v.midway := by
  obtain ⟨cached, d', hr, hfresh⟩ :=
    resultFor_fresh ht (mem_inputs hv hs) fun c hc => h _ (mem_entries hv hc)
  have hres : v.result source = (.ok (compile source v.config.compiler, cached), d') := hr
  have hmid : v.midway = d' := by
    rw [Visit.midway, hs]
    exact congrArg Prod.snd hres
  refine ⟨⟨cached, congrArg Prod.fst hres⟩, fun p hp => ?_⟩
  rw [hmid]
  exact hfresh p (h p hp)

theorem Sound.move {start : Disk} (ht : Cache.ToldApart (inputs events start)) {m : Move}
    (hm : m ∈ moves events start) (hq : ∀ p ∈ entries events start, m.Spares p)
    (h : Sound events start m.before) : Sound events start m.after := by
  cases m with
  | other before after => exact fun p hp bytes hb => h p hp bytes (hq p hp bytes hb)
  | visit v =>
    cases hs : v.source? with
    | none =>
      have hsame : (Move.visit v).after = (Move.visit v).before := by
        simp [Move.after, Move.before, Visit.midway, hs]
      rw [hsame]
      exact h
    | some source => exact (h.visit ht (mem_visits.mpr hm) hs).2

end Folio.History
