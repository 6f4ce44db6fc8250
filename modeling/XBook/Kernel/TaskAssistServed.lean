import XBook.Kernel.TaskAssistInvariant

/-!
# Every scheduled assist runs once

A `DoSoftirq` that nothing disturbs runs every assist that is enabled and scheduled, and leaves the
others in their queues: `Alone` is what holds while it does, and `rank` goes down. With `AssistInv`
this gives `AssistsServed` for every run that meets `assistGuard`.
-/

namespace XBook.Softirqs

open Links Tally Transition

variable {α ι : Type*} [DecidableEq α] [DecidableEq ι]

/-- The next step of a call, if it is under way. -/
def Assists.goOn (i : ι) (s : Assists α ι) : Assists α ι :=
  match s.frames i with
  | none => s
  | some frame => s.frameStep i frame

/-- What has been scheduled and is enabled has run, the rest waits as before. -/
structure Drained (s t : Assists α ι) : Prop where
  idle : ∀ j, t.frames j = none
  scheduled : t.scheduled = s.scheduled
  enabled : ∀ a, s.depth a = 0 → t.executed a = t.scheduled a ∧ t.status a = false
  disabled : ∀ a, s.depth a ≠ 0 → t.executed a = s.executed a ∧ t.status a = s.status a

/-- An assist whose bit is set is on exactly one list. Each schedule has had its run, or the bit is
set for it, or the run is about to begin. A queue with an assist has its softirq or is going to be
handled, and one `DoSoftirq` is enough for all that are not disabled. -/
structure AssistsServed [Fintype ι] (s : Assists α ι) : Prop where
  lists : ∃ lists place, Queued s lists place
  conserved : ∀ a, s.scheduled a = s.executed a + (s.status a).toNat + running s a
  raised : ∀ k, s.head k ≠ none →
    s.softirqEvens k.softirq = true ∨ ∃ i, Serves k (s.frames i)
  enabled : ∀ a, s.count a = 0 ↔ s.depth a = 0
  drained : (∀ j, s.frames j = none) → ∀ i, ∃ n,
    Drained s ((Assists.goOn i)^[n] (s.takeEvens i maxRedoIrq))

variable [Fintype ι] {s t : Assists α ι} {lists : Priority ⊕ ι → List α} {i : ι} {a : α}
  {k : Priority}

/-- Since `s`, nothing has happened but the steps of one softirq, which still comes to every enabled
assist in a queue. -/
structure Alone (s t : Assists α ι) (i : ι) (lists : Priority ⊕ ι → List α) : Prop where
  inv : AssistInv t
  queued : ∃ place, Queued t lists place
  others : ∀ j, j ≠ i → t.frames j = none
  fits : Fits t.count (t.frames i)
  due : ∀ k, ∀ a ∈ lists (.inl k), t.count a = 0 → Serves k (t.frames i)
  kept : t.scheduled = s.scheduled ∧ t.count = s.count ∧ t.depth = s.depth
  disabled : ∀ a, s.count a ≠ 0 → t.executed a = s.executed a ∧ t.status a = s.status a

omit [Fintype ι] [DecidableEq α] [DecidableEq ι] in
/-- A queue with an assist has a first one. -/
theorem Queued.head_ne_none {place : α → Option (Priority ⊕ ι)} (h : Queued s lists place)
    (ha : a ∈ lists (.inl k)) : s.head k ≠ none := by
  intro hnone
  have htrail := h.queue k
  rw [hnone] at htrail
  rw [htrail.eq_nil] at ha
  cases ha

/-- One step of the softirq. -/
theorem Alone.step (h : Alone s t i lists) (hbusy : t.frames i ≠ none) :
    ∃ lists', Alone s (t.goOn i) i lists' ∧
      rank (lists' (.inr i)).length ((t.goOn i).frames i) <
        rank (lists (.inr i)).length (t.frames i) := by
  obtain ⟨place, hqueued⟩ := h.queued
  have hfits := h.fits
  cases hframe : t.frames i with
  | none => exact (hbusy hframe).elim
  | some frame =>
      rw [hframe] at hfits
      cases frame with
      | test a => exact hfits.elim
      | set a old => exact hfits.elim
      | insert a => exact hfits.elim
      | softirq point evens redoIrq =>
          have heq : t.goOn i = t.softirqStep i evens redoIrq point := by
            show (match t.frames i with
              | none => t
              | some frame => t.frameStep i frame) = _
            rw [hframe]
            rfl
          obtain ⟨lists', hsteps⟩ := softirq_step_spec hqueued hframe
          rw [← heq] at hsteps
          obtain ⟨place', hqueued'⟩ := hsteps.queued
          obtain ⟨hscheduled, hcount, hdepth⟩ := hsteps.kept
          obtain ⟨hnew, hsame⟩ := hsteps.fits h.fits
          rw [← hframe]
          refine ⟨lists', ⟨?_, ⟨place', hqueued'⟩, fun j hj => ?_, ?_, fun k a ha hzero => ?_,
            ⟨hscheduled.trans h.kept.1, hcount.trans h.kept.2.1, hdepth.trans h.kept.2.2⟩,
            fun a ha => ?_⟩, hsteps.decreases⟩
          · rw [heq]
            exact h.inv.softirq_step hframe
          · rw [hsteps.frames, Function.update_of_ne hj]
            exact h.others j hj
          · rw [hcount]
            exact hnew
          · rw [hcount] at hzero
            refine hsteps.serves k (hqueued'.head_ne_none ha) ?_
            rcases hsteps.queue k a ha with hin | ⟨p, evens', redoIrq', hrequeue⟩
            · exact h.due k a hin hzero
            · have hne := h.fits
              rw [hrequeue] at hne
              exact (hne hzero).elim
          · have hkept := hsame a (by rwa [h.kept.2.1])
            have hold := h.disabled a ha
            exact ⟨hkept.1.trans hold.1, hkept.2.trans hold.2⟩

/-- The softirq comes to its end. -/
theorem Alone.finish (h : Alone s t i lists) :
    ∃ n lists', Alone s ((Assists.goOn i)^[n] t) i lists' ∧
      ((Assists.goOn i)^[n] t).frames i = none := by
  generalize hrank : rank (lists (.inr i)).length (t.frames i) = r
  induction r using WellFoundedLT.induction generalizing t lists with
  | ind r ih =>
      by_cases hidle : t.frames i = none
      · exact ⟨0, lists, h, hidle⟩
      · obtain ⟨lists', hnext, hless⟩ := h.step hidle
        rw [hrank] at hless
        obtain ⟨n, lists'', hlast, hend⟩ := ih _ hless hnext rfl
        exact ⟨n + 1, lists'', hlast, hend⟩

/-- It leaves no enabled assist. -/
theorem Alone.drained (h : Alone s t i lists) (hs : AssistInv s) (hend : t.frames i = none) :
    Drained s t := by
  have hidle : ∀ j, t.frames j = none := by
    intro j
    by_cases hj : j = i
    · rwa [hj]
    · exact h.others j hj
  obtain ⟨place, hqueued⟩ := h.queued
  obtain ⟨hscheduled, hcount, hdepth⟩ := h.kept
  refine ⟨hidle, hscheduled, fun a ha => ?_, fun a ha => ?_⟩
  · have hzero : t.count a = 0 := by
      rw [hcount]
      rcases hs.count a with heq | ⟨-, hone⟩ <;> omega
    have hclear : t.status a = false := by
      rw [hqueued.bit, Option.isSome_eq_false_iff, Option.isNone_iff_eq_none]
      cases hplace : place a with
      | none => rfl
      | some l =>
          have hin := ((hqueued.placed l).2 a).mpr hplace
          cases l with
          | inl k =>
              have hserve := h.due k a hin hzero
              rw [hend] at hserve
              exact hserve.elim
          | inr j =>
              have hempty := hqueued.frame j
              rw [hidle j] at hempty
              replace hempty : lists (.inr j) = [] := hempty
              rw [hempty] at hin
              cases hin
    have hrunning : running t a = 0 := by
      rw [running, tally_eq_zero]
      intro j
      rw [hidle j]
      rfl
    have hconserved := h.inv.conserved a
    rw [hclear, hrunning] at hconserved
    exact ⟨hconserved.symm, hclear⟩
  · refine h.disabled a ?_
    rcases hs.count a with heq | ⟨hone, -⟩ <;> omega

/-- `DoSoftirq` begins. -/
theorem AssistInv.alone (h : AssistInv s) (hidle : ∀ j, s.frames j = none) (i : ι) :
    ∃ lists, Alone s (s.takeEvens i maxRedoIrq) i lists := by
  obtain ⟨lists, place, hqueued⟩ := h.lists
  obtain ⟨evens, frame, heq, hnew, hevens⟩ := take_evens_spec s i maxRedoIrq
  have hinv := h.do_softirq (hidle i)
  rw [heq] at hinv ⊢
  have hself : ({ s with softirqEvens := evens }.setFrame i frame).frames i = frame :=
    Function.update_self ..
  have hempty := hqueued.frame i
  rw [hidle i] at hempty
  refine ⟨lists, hinv, ⟨place, hqueued.reframe rfl rfl rfl rfl ?_⟩, fun j hj => ?_, ?_,
    fun k a ha _ => ?_, ⟨rfl, rfl, rfl⟩, fun a _ => ⟨rfl, rfl⟩⟩
  · rcases hnew with rfl | ⟨-, rfl⟩
    · exact hempty
    · exact hempty
  · rw [← hidle j]
    exact Function.update_of_ne hj ..
  · rw [hself]
    rcases hnew with rfl | ⟨-, rfl⟩
    · trivial
    · trivial
  · rw [hself]
    have hpending : s.softirqEvens k.softirq = true := by
      rcases h.raised k (hqueued.head_ne_none ha) with hset | ⟨j, hj⟩
      · exact hset
      · rw [hidle j] at hj
        exact hj.elim
    rcases hevens _ k.softirq_mem hpending with ⟨hzero, -⟩ | ⟨hin, rfl⟩
    · cases hzero
    · exact hin

theorem AssistInv.served (h : AssistInv s) : AssistsServed s := by
  refine ⟨h.lists, h.conserved, h.raised, fun a => ?_, fun hidle i => ?_⟩
  · rcases h.count a with heq | ⟨hone, hdepth⟩ <;> omega
  · obtain ⟨lists, halone⟩ := h.alone hidle i
    obtain ⟨n, lists', hlast, hend⟩ := halone.finish
    exact ⟨n, hlast.drained h hend⟩

end XBook.Softirqs
