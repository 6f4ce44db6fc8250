import Mathlib.Data.List.Basic

/-!
# Labelled transition systems and their finite runs

`Run step guard s ls t` says that `t` is reached from `s` by one step for each label of `ls`,
where every label met `guard` in the state it was taken from. Read `Run.invariant` first: what
every guarded step preserves holds at the end of every guarded run. `runAll` executes a
deterministic system, and `run_of_run_all` turns an execution into a run, so that a concrete
run is found by computation.
-/

namespace Transition

/-- The parties of a concrete run are numbered. -/
instance (priority := 2000) neZeroOne : @NeZero Nat (@Zero.ofOfNat0 Nat (instOfNatNat 0)) 1 :=
  ⟨Nat.one_ne_zero⟩

instance (priority := 2000) neZeroTwo : @NeZero Nat (@Zero.ofOfNat0 Nat (instOfNatNat 0)) 2 :=
  ⟨Nat.succ_ne_zero 1⟩

instance (priority := 2000) neZeroThree : @NeZero Nat (@Zero.ofOfNat0 Nat (instOfNatNat 0)) 3 :=
  ⟨Nat.succ_ne_zero 2⟩

variable {State Label : Type*}

/-- A labelled step relation. -/
abbrev StepRel (State Label : Type*) := State → Label → State → Prop

/-- The guard that every label meets. -/
abbrev anyLabel : State → Label → Prop := fun _ _ => True

/-- A finite run, with its labels, whose steps all meet the guard. -/
inductive Run (step : StepRel State Label) (guard : State → Label → Prop) :
    State → List Label → State → Prop where
  | nil (s) : Run step guard s [] s
  | cons {s t u : State} {l : Label} {ls : List Label} :
      guard s l → step s l t → Run step guard t ls u → Run step guard s (l :: ls) u

namespace Run

variable {step : StepRel State Label} {guard : State → Label → Prop}

/-- What every guarded step preserves holds at the end of every guarded run. -/
theorem invariant {inv : State → Prop}
    (hstep : ∀ s l t, inv s → guard s l → step s l t → inv t)
    {s t : State} {ls : List Label} (h : Run step guard s ls t) (hs : inv s) : inv t := by
  induction h with
  | nil => exact hs
  | cons hguard hnext _ ih => exact ih (hstep _ _ _ hs hguard hnext)

/-- Two runs compose. -/
theorem trans {s t u : State} {ls ms : List Label} (h : Run step guard s ls t)
    (h' : Run step guard t ms u) : Run step guard s (ls ++ ms) u := by
  induction h with
  | nil => exact h'
  | cons hguard hnext _ ih => exact .cons hguard hnext (ih h')

/-- A weaker guard admits the same run. -/
theorem mono {guard' : State → Label → Prop} (himp : ∀ s l, guard s l → guard' s l)
    {s t : State} {ls : List Label} (h : Run step guard s ls t) : Run step guard' s ls t := by
  induction h with
  | nil s => exact .nil s
  | cons hguard hnext _ ih => exact .cons (himp _ _ hguard) hnext ih

end Run

/-- Every label meets `good` in each state that it is taken from. -/
def Always (step : StepRel State Label) (good : State → Label → Prop) : State → List Label → Prop
  | _, [] => True
  | s, l :: ls => good s l ∧ ∀ t, step s l t → Always step good t ls

/-- Where two conditions agree in the states of an invariant, and one of them keeps it, they agree
along every sequence of labels. -/
theorem always_iff {step : StepRel State Label} {good guard : State → Label → Prop}
    {inv : State → Prop} (hiff : ∀ s l, inv s → (good s l ↔ guard s l))
    (hkeeps : ∀ s l t, inv s → guard s l → step s l t → inv t) {s : State} (hs : inv s)
    (ls : List Label) : Always step good s ls ↔ Always step guard s ls := by
  induction ls generalizing s with
  | nil => exact Iff.rfl
  | cons l ls ih =>
      show (good s l ∧ ∀ t, step s l t → Always step good t ls) ↔
        (guard s l ∧ ∀ t, step s l t → Always step guard t ls)
      rw [hiff s l hs]
      constructor
      · intro h
        exact ⟨h.1, fun t ht => (ih (hkeeps s l t hs h.1 ht)).mp (h.2 t ht)⟩
      · intro h
        exact ⟨h.1, fun t ht => (ih (hkeeps s l t hs h.1 ht)).mpr (h.2 t ht)⟩

/-- The step relation of a deterministic system. -/
def stepOf (next : State → Label → Option State) : StepRel State Label :=
  fun s l t => next s l = some t

/-- Executes one step for each label; any failed step stops the run. -/
def runAll (next : State → Label → Option State) : State → List Label → Option State
  | s, [] => some s
  | s, l :: ls => (next s l).bind fun t => runAll next t ls

/-- Executes one step for each label, checking the guard before each. -/
def runChecked (next : State → Label → Option State) (guard : State → Label → Prop)
    [∀ s l, Decidable (guard s l)] : State → List Label → Option State
  | s, [] => some s
  | s, l :: ls => if guard s l then (next s l).bind fun t => runChecked next guard t ls else none

variable {next : State → Label → Option State} {guard : State → Label → Prop}

/-- When the guard is just what keeps every state good, a run through good states is a guarded
run. -/
theorem Run.good_iff_guarded {inv good : State → Prop}
    (hgood : ∀ s, inv s → good s)
    (hkeeps : ∀ s l t, inv s → guard s l → next s l = some t → inv t)
    (hbreaks : ∀ s l t, inv s → next s l = some t → good t → guard s l)
    {s t : State} {ls : List Label} (hs : inv s) (h : Run (stepOf next) anyLabel s ls t) :
    (∀ pre u, pre <+: ls → Run (stepOf next) anyLabel s pre u → good u) ↔
      Run (stepOf next) guard s ls t := by
  induction h with
  | nil s =>
      refine ⟨fun _ => .nil s, fun _ pre u hpre hrun => ?_⟩
      rw [List.prefix_nil.mp hpre] at hrun
      cases hrun
      exact hgood s hs
  | @cons s m t l ls _ hnext hrest ih =>
      constructor
      · intro h
        have hm := h [l] m ⟨ls, rfl⟩ (.cons trivial hnext (.nil m))
        have hguard := hbreaks s l m hs hnext hm
        refine .cons hguard hnext ((ih (hkeeps s l m hs hguard hnext)).mp ?_)
        intro pre u hpre hrun
        exact h (l :: pre) u ((List.prefix_cons_inj l).mpr hpre) (.cons trivial hnext hrun)
      · rintro hrun pre u hpre hprefix
        cases hrun with
        | cons hguard hnext' hrest' =>
            obtain rfl := Option.some.inj (hnext.symm.trans hnext')
            cases hprefix with
            | nil => exact hgood s hs
            | @cons _ m' _ l' pre _ hfirst hpre' =>
                obtain ⟨rfl, hpost⟩ := List.cons_prefix_cons.mp hpre
                obtain rfl := Option.some.inj (hnext.symm.trans hfirst)
                exact (ih (hkeeps s l' m hs hguard hnext)).mpr hrest' pre u hpost hpre'

/-- A checked execution is a guarded run. -/
theorem run_of_run_checked [∀ s l, Decidable (guard s l)] {s t : State} {ls : List Label}
    (h : runChecked next guard s ls = some t) : Run (stepOf next) guard s ls t := by
  induction ls generalizing s with
  | nil =>
      cases Option.some.inj h
      exact .nil _
  | cons l ls ih =>
      simp only [runChecked] at h
      split at h
      · next hguard =>
          obtain ⟨m, hm, hrest⟩ := Option.bind_eq_some_iff.mp h
          exact .cons hguard hm (ih hrest)
      · simp at h

/-- An execution is a run. -/
theorem run_of_run_all {s t : State} {ls : List Label} (h : runAll next s ls = some t) :
    Run (stepOf next) anyLabel s ls t := by
  induction ls generalizing s with
  | nil =>
      cases Option.some.inj h
      exact .nil _
  | cons l ls ih =>
      obtain ⟨m, hm, hrest⟩ := Option.bind_eq_some_iff.mp h
      exact .cons trivial hm (ih hrest)

/-- A guarded run found by computing what `view` reads off its last state. -/
theorem exists_run_checked {View : Type*} (next : State → Label → Option State)
    (guard : State → Label → Prop) [∀ s l, Decidable (guard s l)] (start : Option State)
    (ls : List Label) (view : State → View) {v : View}
    (h : (start.bind (runChecked next guard · ls)).map view = some v) :
    ∃ s t, start = some s ∧ Run (stepOf next) guard s ls t ∧ view t = v := by
  obtain ⟨t, ht, hview⟩ := Option.map_eq_some_iff.mp h
  obtain ⟨s, hs, hrun⟩ := Option.bind_eq_some_iff.mp ht
  exact ⟨s, t, hs, run_of_run_checked hrun, hview⟩

/-- A run found by computing what `view` reads off its last state. -/
theorem exists_run_all {View : Type*} (next : State → Label → Option State)
    (start : Option State) (ls : List Label) (view : State → View) {v : View}
    (h : (start.bind (runAll next · ls)).map view = some v) :
    ∃ s t, start = some s ∧ Run (stepOf next) anyLabel s ls t ∧ view t = v := by
  obtain ⟨t, ht, hview⟩ := Option.map_eq_some_iff.mp h
  obtain ⟨s, hs, hrun⟩ := Option.bind_eq_some_iff.mp ht
  exact ⟨s, t, hs, run_of_run_all hrun, hview⟩

end Transition
