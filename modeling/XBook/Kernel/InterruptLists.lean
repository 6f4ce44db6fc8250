import Mathlib.Data.List.Perm.Subperm
import XBook.Kernel.Interrupt
import XBook.Lib.Links

/-!
# The actions of an interrupt line

`IrqGood` says that the list of each line holds the registered actions and no others, that an
interrupt runs each of them once, and that the line is enabled when there is one. A call keeps it
exactly when it meets `KeepsLists`: an exclusive `RegisterIRQ` overwrites the head of the list,
so there must be no action yet; and `UnregisterIRQ` can take off the first action only, since its
`prev` is the action itself. `irq_lists_iff` is about whole runs.
-/

namespace XBook.Irq

open Transition Links

/-- The `next` pointers of all actions. -/
def IrqState.next (s : IrqState) (a : Nat) : Option Nat := (s.actions a).next

/-- What the lines should be like. -/
structure IrqGood (s : IrqSystem) : Prop where
  noFault : s.faulted = false
  lists : ∀ irq < nrIrqs, Trail s.state.next (s.state.irqDescriptionTable irq).action
    ((s.registered irq).map Registration.action)
  live : ∀ irq < nrIrqs, ∀ r ∈ s.registered irq, r.action ∈ s.state.live
  handled : ∀ irq < nrIrqs, s.registered irq ≠ [] →
    s.state.handleIRQ irq = some ((s.registered irq).map fun r => (r.handler, r.data))
  enabled : ∀ irq < nrIrqs,
    (s.state.irqDescriptionTable irq).enabled = true ↔ s.registered irq ≠ []

/-- The call is a shared `RegisterIRQ`, the first one of its line, or an `UnregisterIRQ` of the
first action of its line. -/
def KeepsLists (s : IrqSystem) : IrqCall → Prop
  | .register irq _ flags _ _ => irqfShared flags = true ∨ s.registered irq = []
  | .unregister irq data => ∃ r rest, s.registered irq = r :: rest ∧ r.data = data

/-- One line. -/
structure LineInv (s : IrqState) (irq : Nat) (l : List Registration) : Prop where
  trail : Trail s.next (s.irqDescriptionTable irq).action (l.map Registration.action)
  live : ∀ r ∈ l, r.action ∈ s.live
  fields : ∀ r ∈ l, (s.actions r.action).data = r.data ∧ (s.actions r.action).handler = r.handler
  nodup : (l.map Registration.action).Nodup
  count : (s.irqDescriptionTable irq).deviceCount = l.length
  enabled : (s.irqDescriptionTable irq).enabled = true ↔ l ≠ []
  controller : l ≠ [] → (s.irqDescriptionTable irq).controller = true
  shared : irqfShared (s.irqDescriptionTable irq).flags = true ∨ l.length ≤ 1

/-- The invariant of the guarded runs. -/
structure IrqInv (s : IrqSystem) : Prop where
  noFault : s.faulted = false
  lines : ∀ irq < nrIrqs, LineInv s.state irq (s.registered irq)
  apart : ∀ irq < nrIrqs, ∀ irq' < nrIrqs, irq ≠ irq' → ∀ r ∈ s.registered irq,
    ∀ r' ∈ s.registered irq', r.action ≠ r'.action
  liveNodup : s.state.live.Nodup

/-! ## Walks -/

section

variable {s s' : IrqState} {irq : Nat} {l : List Registration}

/-- A list of live actions is shorter than the fuel of a walk. -/
theorem LineInv.length_lt (h : LineInv s irq l) : l.length < s.walkFuel := by
  have hsub : l.map Registration.action ⊆ s.live := by
    intro a ha
    obtain ⟨r, hr, rfl⟩ := List.mem_map.mp ha
    exact h.live r hr
  have hle := (h.nodup.subperm hsub).length_le
  rw [List.length_map] at hle
  exact Nat.lt_succ_of_le hle

/-- The walk of `RegisterIRQ` ends at the last action. -/
theorem last_action_eq {fuel p : Nat} {addrs : List Nat} {last : Nat}
    (htrail : Trail s.next (some p) (addrs ++ [last])) (hlive : ∀ a ∈ addrs ++ [last], a ∈ s.live)
    (hfuel : addrs.length < fuel) : s.lastAction fuel p = some last := by
  induction addrs generalizing fuel p with
  | nil =>
      obtain ⟨rfl, hnull⟩ := htrail
      cases fuel with
      | zero => exact absurd hfuel (Nat.not_lt_zero _)
      | succ fuel =>
          rw [IrqState.lastAction, if_pos (hlive p (by simp))]
          have hnext : (s.actions p).next = none := Trail.eq_none hnull
          rw [hnext]
  | cons b rest ih =>
      obtain ⟨rfl, hrest⟩ := htrail
      cases fuel with
      | zero => exact absurd hfuel (Nat.not_lt_zero _)
      | succ fuel =>
          rw [IrqState.lastAction, if_pos (hlive p (by simp))]
          cases hnext : (s.actions p).next with
          | none =>
              have hnone : s.next p = none := hnext
              rw [hnone] at hrest
              exact absurd hrest.eq_nil (by simp)
          | some q =>
              have hsome : s.next p = some q := hnext
              rw [hsome] at hrest
              exact ih hrest (fun a ha => hlive a (List.mem_cons_of_mem _ ha))
                (by simpa using hfuel)

/-- The walk of `HandleIRQ` runs each action of the list. -/
theorem handle_actions_eq {fuel : Nat} {p : Option Nat}
    (htrail : Trail s.next p (l.map Registration.action)) (hlive : ∀ r ∈ l, r.action ∈ s.live)
    (hfields : ∀ r ∈ l, (s.actions r.action).data = r.data ∧
      (s.actions r.action).handler = r.handler) (hfuel : l.length < fuel) :
    s.handleActions fuel p = some (l.map fun r => (r.handler, r.data)) := by
  induction l generalizing fuel p with
  | nil =>
      rw [htrail.eq_none]
      cases fuel <;> rfl
  | cons r rest ih =>
      cases p with
      | none => exact absurd htrail.eq_nil (by simp)
      | some a =>
          obtain ⟨rfl, hrest⟩ := htrail
          cases fuel with
          | zero => exact absurd hfuel (Nat.not_lt_zero _)
          | succ fuel =>
              obtain ⟨hdata, hhandler⟩ := hfields r (by simp)
              have hrun := ih hrest (fun r' hr' => hlive r' (List.mem_cons_of_mem _ hr'))
                (fun r' hr' => hfields r' (List.mem_cons_of_mem _ hr')) (by simpa using hfuel)
              rw [IrqState.handleActions, if_pos (hlive r (by simp))]
              show (s.handleActions fuel (s.next r.action)).map
                (((s.actions r.action).handler, (s.actions r.action).data) :: ·) = _
              rw [hrun, hdata, hhandler]
              rfl

theorem LineInv.handled (h : LineInv s irq l) (hirq : irq < nrIrqs) (hne : l ≠ []) :
    s.handleIRQ irq = some (l.map fun r => (r.handler, r.data)) := by
  simp only [IrqState.handleIRQ, hirq, if_true,
    handle_actions_eq h.trail h.live h.fields h.length_lt, Option.bind_some, h.controller hne]

theorem IrqInv.good {s : IrqSystem} (h : IrqInv s) : IrqGood s :=
  ⟨h.noFault, fun irq hirq => (h.lines irq hirq).trail, fun irq hirq => (h.lines irq hirq).live,
    fun irq hirq hne => (h.lines irq hirq).handled hirq hne,
    fun irq hirq => (h.lines irq hirq).enabled⟩

/-- A line depends on its description and on its actions. -/
theorem LineInv.congr (h : LineInv s irq l)
    (hdesc : s'.irqDescriptionTable irq = s.irqDescriptionTable irq)
    (hactions : ∀ r ∈ l, s'.actions r.action = s.actions r.action)
    (hlive : ∀ r ∈ l, r.action ∈ s'.live) : LineInv s' irq l := by
  refine ⟨?_, hlive, ?_, h.nodup, ?_, ?_, ?_, ?_⟩
  · rw [hdesc]
    refine h.trail.congr fun a ha => ?_
    obtain ⟨r, hr, rfl⟩ := List.mem_map.mp ha
    show (s'.actions r.action).next = _
    rw [hactions r hr]
    rfl
  · intro r hr
    rw [hactions r hr]
    exact h.fields r hr
  · rw [hdesc]
    exact h.count
  · rw [hdesc]
    exact h.enabled
  · rw [hdesc]
    exact h.controller
  · rw [hdesc]
    exact h.shared

/-! ## Registering -/

/-- `RegisterIRQ` as a chain of four steps. -/
theorem register_irq_eq {handler flags data a : Nat} (hirq : irq < nrIrqs) :
    s.registerIRQ irq handler flags data (some a) =
      (((s.setController irq flags).newAction a handler flags data).linkAction irq flags a).map
        fun s => (s.enableLine irq, 0) := by
  simp only [IrqState.registerIRQ, hirq, if_true]

/-- What becomes of a line when its action has been linked. -/
theorem LineInv.linked {handler flags data a : Nat} (h : LineInv s irq l)
    (ha : a ∉ s.live) (hguard : irqfShared flags = true ∨ l = [])
    (hdesc : ∃ head, s'.irqDescriptionTable irq =
      { s.irqDescriptionTable irq with action := head, controller := true, flags := flags })
    (htrail : Trail s'.next (s'.irqDescriptionTable irq).action
      (l.map Registration.action ++ [a]))
    (hlive : s'.live = a :: s.live)
    (hnew : (s'.actions a).data = data ∧ (s'.actions a).handler = handler)
    (hold : ∀ b ≠ a, (s'.actions b).data = (s.actions b).data ∧
      (s'.actions b).handler = (s.actions b).handler) :
    LineInv (s'.enableLine irq) irq (l ++ [⟨a, handler, data⟩]) := by
  obtain ⟨head, hdesc⟩ := hdesc
  have hne : ∀ r ∈ l, r.action ≠ a := fun r hr heq => ha (heq ▸ h.live r hr)
  refine ⟨?_, ?_, ?_, ?_, ?_, ?_, ?_, ?_⟩
  · rw [List.map_append]
    show Trail s'.next _ _
    simpa [IrqState.enableLine, IrqState.setDescription] using htrail
  · intro r hr
    show r.action ∈ s'.live
    rw [hlive]
    rcases List.mem_append.mp hr with hr | hr
    · exact List.mem_cons_of_mem _ (h.live r hr)
    · rw [List.mem_singleton.mp hr]
      exact List.mem_cons_self
  · intro r hr
    show (s'.actions r.action).data = _ ∧ (s'.actions r.action).handler = _
    rcases List.mem_append.mp hr with hr | hr
    · rw [(hold _ (hne r hr)).1, (hold _ (hne r hr)).2]
      exact h.fields r hr
    · rw [List.mem_singleton.mp hr]
      exact hnew
  · rw [List.map_append, List.nodup_append]
    refine ⟨h.nodup, by simp, ?_⟩
    intro b hb c hc
    obtain ⟨r, hr, rfl⟩ := List.mem_map.mp hb
    rw [show c = a by simpa using hc]
    exact hne r hr
  · simp [IrqState.enableLine, IrqState.setDescription, hdesc, h.count]
  · simp [IrqState.enableLine, IrqState.setDescription]
  · intro _
    simp [IrqState.enableLine, IrqState.setDescription, hdesc]
  · rcases hguard with hflags | rfl
    · exact .inl (by simp [IrqState.enableLine, IrqState.setDescription, hdesc, hflags])
    · exact .inr (by simp)

/-- The action becomes the head of the list of a line without actions, or of an exclusive line. -/
theorem link_action_head {flags a : Nat}
    (h : irqfShared flags = false ∨ (s.irqDescriptionTable irq).action = none) :
    s.linkAction irq flags a = some (s.setHead irq (some a)) := by
  rw [IrqState.linkAction]
  rcases h with hflags | hnone
  · rw [hflags]
    rfl
  · rw [hnone]
    cases irqfShared flags <;> rfl

/-- The action is linked behind the last one of a shared line. -/
theorem link_action_last {flags a last : Nat} {addrs : List Nat} (hflags : irqfShared flags = true)
    (htrail : Trail s.next (s.irqDescriptionTable irq).action (addrs ++ [last]))
    (hlive : ∀ b ∈ addrs ++ [last], b ∈ s.live) (hfuel : addrs.length < s.walkFuel) :
    s.linkAction irq flags a = some (s.setNext last (some a)) := by
  rw [IrqState.linkAction, if_pos hflags]
  cases hhead : (s.irqDescriptionTable irq).action with
  | none =>
      rw [hhead] at htrail
      exact absurd htrail.eq_nil (by simp)
  | some p =>
      rw [hhead] at htrail
      simp only [last_action_eq htrail hlive hfuel, Option.map_some]

/-- `RegisterIRQ` of a line without actions, or of a shared one, adds its action. -/
theorem LineInv.register (h : LineInv s irq l) {handler flags data a : Nat} (hirq : irq < nrIrqs)
    (ha : a ∉ s.live) (hguard : irqfShared flags = true ∨ l = []) :
    ∃ s', s.registerIRQ irq handler flags data (some a) = some (s', 0) ∧
      LineInv s' irq (l ++ [⟨a, handler, data⟩]) ∧ s'.live = a :: s.live ∧
      (∀ irq' ≠ irq, s'.irqDescriptionTable irq' = s.irqDescriptionTable irq') ∧
      ∀ b, b ≠ a → b ∉ l.map Registration.action → s'.actions b = s.actions b := by
  rw [register_irq_eq hirq]
  have haddrs : a ∉ l.map Registration.action := by
    intro hmem
    obtain ⟨r, hr, rfl⟩ := List.mem_map.mp hmem
    exact ha (h.live r hr)
  generalize hs₁ : (s.setController irq flags).newAction a handler flags data = s₁
  have hdesc : s₁.irqDescriptionTable irq =
      { s.irqDescriptionTable irq with controller := true, flags := flags } := by
    rw [← hs₁]
    exact IrqState.set_description_same ..
  have hothers : ∀ irq' ≠ irq, s₁.irqDescriptionTable irq' = s.irqDescriptionTable irq' := by
    intro irq' hne
    rw [← hs₁]
    exact IrqState.set_description_other _ _ hne
  have hlive : s₁.live = a :: s.live := by
    rw [← hs₁]
    rfl
  have hnew : s₁.actions a = ⟨data, handler, flags, none⟩ := by
    rw [← hs₁]
    exact Function.update_self ..
  have hold : ∀ b ≠ a, s₁.actions b = s.actions b := by
    intro b hb
    rw [← hs₁]
    exact Function.update_of_ne hb ..
  have hnull : s₁.next a = none := congrArg IrqAction.next hnew
  have htrail : Trail s₁.next (s₁.irqDescriptionTable irq).action (l.map Registration.action) := by
    rw [hdesc]
    refine h.trail.congr fun b hb => congrArg IrqAction.next (hold b ?_)
    rintro rfl
    exact haddrs hb
  rcases List.eq_nil_or_concat' l with rfl | ⟨init, last, rfl⟩
  · -- the action is the only one
    have hlink := @link_action_head s₁ irq flags a (.inr htrail.eq_none)
    refine ⟨(s₁.setHead irq (some a)).enableLine irq, by rw [hlink, Option.map_some],
      h.linked ha hguard ⟨some a, ?_⟩ ?_ hlive ?_ ?_, hlive, ?_, fun b hb _ => hold b hb⟩
    · rw [IrqState.set_head_same, hdesc]
    · rw [IrqState.set_head_same]
      refine ⟨rfl, ?_⟩
      show Trail s₁.next (s₁.next a) []
      rw [hnull]
      exact Trail.nil
    · show (s₁.actions a).data = data ∧ (s₁.actions a).handler = handler
      simp [hnew]
    · intro b hb
      show (s₁.actions b).data = _ ∧ (s₁.actions b).handler = _
      simp [hold b hb]
    · intro irq' hne
      simp [IrqState.enableLine, hne, hothers irq' hne]
  · -- the action goes behind the last one
    have hflags := hguard.resolve_right (by simp)
    rw [List.map_append, List.map_singleton] at htrail haddrs
    have hnodup : (init.map Registration.action ++ [last.action]).Nodup := by
      simpa using h.nodup
    have hlives : ∀ b ∈ init.map Registration.action ++ [last.action], b ∈ s₁.live := by
      intro b hb
      rw [hlive]
      obtain ⟨r, hr, rfl⟩ := List.mem_map.mp (show b ∈ (init ++ [last]).map Registration.action by
        simpa using hb)
      exact List.mem_cons_of_mem _ (h.live r hr)
    have hfuel : (init.map Registration.action).length < s₁.walkFuel := by
      have hlength := h.length_lt
      simp only [IrqState.walkFuel, hlive, List.length_append, List.length_map,
        List.length_cons] at *
      omega
    have hlast : a ≠ last.action := by
      rintro rfl
      exact haddrs (by simp)
    have hlink := link_action_last (a := a) hflags htrail hlives hfuel
    refine ⟨(s₁.setNext last.action (some a)).enableLine irq, by rw [hlink, Option.map_some],
      h.linked ha hguard ⟨_, hdesc⟩ ?_ hlive ?_ ?_, hlive, ?_, ?_⟩
    · have hnext : (s₁.setNext last.action (some a)).next =
          Function.update s₁.next last.action (some a) := by
        funext b
        by_cases hb : b = last.action <;>
          simp [hb, IrqState.next, IrqState.set_next_actions]
      rw [hnext, List.map_append, List.map_singleton, List.append_assoc]
      exact htrail.concat hnodup haddrs hnull
    · simp [IrqState.set_next_actions, hlast, hnew]
    · intro b hb
      rw [IrqState.set_next_actions, ← hold b hb]
      split
      · next heq => simp [heq]
      · exact ⟨rfl, rfl⟩
    · intro irq' hne
      rw [← hothers irq' hne]
      exact IrqState.set_description_other _ _ hne
    · intro b hb hother
      have hne : b ≠ last.action := by
        rintro rfl
        exact hother (by simp)
      rw [← hold b hb]
      show (s₁.setNext last.action (some a)).actions b = _
      rw [IrqState.set_next_actions, if_neg hne]

/-! ## Unregistering -/

/-- The first action of a line, and what it is linked to. -/
theorem LineInv.first {r : Registration} {rest : List Registration}
    (h : LineInv s irq (r :: rest)) : (s.irqDescriptionTable irq).action = some r.action ∧
      Trail s.next (s.next r.action) (rest.map Registration.action) := by
  have htrail := h.trail
  cases hhead : (s.irqDescriptionTable irq).action with
  | none =>
      rw [hhead] at htrail
      exact absurd htrail.eq_nil (by simp)
  | some p =>
      rw [hhead] at htrail
      obtain ⟨rfl, hrest⟩ := htrail
      exact ⟨rfl, hrest⟩

/-- The first action of a line is taken off. -/
theorem LineInv.unlink {r : Registration} {rest : List Registration}
    (h : LineInv s irq (r :: rest)) : s.unlinkAction irq r.data =
      some { s.setHead irq (s.next r.action) with live := s.live.erase r.action } := by
  have hlive := h.live r (by simp)
  obtain ⟨hhead, hrest⟩ := h.first
  rw [IrqState.unlinkAction]
  by_cases hflags : irqfShared (s.irqDescriptionTable irq).flags = true
  · simp only [hflags, if_true, hhead, Option.bind_some, IrqState.walkFuel, IrqState.removeAction,
      hlive, (h.fields r (by simp)).1]
    have hfree : r.action ∈ (s.setHead irq (s.actions r.action).next).live := hlive
    rw [IrqState.kfree, if_pos hfree]
    rfl
  · -- an exclusive line has one action
    have hone : rest = [] := by
      have hlength := h.shared.resolve_left hflags
      exact List.eq_nil_of_length_eq_zero (by simpa using hlength)
    rw [hone] at hrest
    simp only [hflags, if_false, hhead, IrqState.kfree, hlive, if_true, Option.map_some,
      Bool.false_eq_true, hrest.eq_none]
    rfl

/-- `UnregisterIRQ` of the first action of a line. -/
theorem LineInv.unregister {r : Registration} {rest : List Registration} (hirq : irq < nrIrqs)
    (h : LineInv s irq (r :: rest)) : ∃ s', s.unregisterIRQ irq r.data = some (s', 0) ∧
      LineInv s' irq rest ∧ s'.live = s.live.erase r.action ∧
      (∀ irq' ≠ irq, s'.irqDescriptionTable irq' = s.irqDescriptionTable irq') ∧
      s'.actions = s.actions := by
  obtain ⟨hdata, hnodup⟩ := List.nodup_cons.mp h.nodup
  have hcount := h.count
  have hlives : ∀ r' ∈ rest, r'.action ∈ s.live.erase r.action := by
    intro r' hr'
    refine (List.mem_erase_of_ne ?_).mpr (h.live r' (List.mem_cons_of_mem _ hr'))
    exact fun heq => hdata (heq ▸ List.mem_map_of_mem hr')
  simp only [IrqState.unregisterIRQ, hirq, if_true, h.unlink, Option.bind_some]
  generalize hs₁ : ({ s.setHead irq (s.next r.action) with live := s.live.erase r.action } :
    IrqState) = s₁
  have hdesc : s₁.irqDescriptionTable irq =
      { s.irqDescriptionTable irq with action := s.next r.action } := by
    rw [← hs₁]
    exact IrqState.set_head_same ..
  have hothers : ∀ irq' ≠ irq, s₁.irqDescriptionTable irq' = s.irqDescriptionTable irq' := by
    intro irq' hne
    rw [← hs₁]
    exact IrqState.set_head_other _ _ hne
  have hactions : s₁.actions = s.actions := by
    rw [← hs₁]
    rfl
  have hlive : s₁.live = s.live.erase r.action := by rw [← hs₁]
  -- only the description of the line changes from here on
  have hline : ∀ d : IrqDescription, d.action = s.next r.action → d.deviceCount = rest.length →
      (d.enabled = true ↔ rest ≠ []) → (rest ≠ [] → d.controller = true) →
      (irqfShared d.flags = true ∨ rest.length ≤ 1) → LineInv (s₁.setDescription irq d) irq rest := by
    intro d haction hcount henabled hcontroller hshared
    refine ⟨?_, ?_, ?_, hnodup, ?_, ?_, ?_, ?_⟩
    · rw [IrqState.set_description_same, haction]
      show Trail (fun a => (s₁.actions a).next) _ _
      rw [hactions]
      exact h.first.2
    · intro r' hr'
      show r'.action ∈ s₁.live
      rw [hlive]
      exact hlives r' hr'
    · intro r' hr'
      show (s₁.actions r'.action).data = _ ∧ (s₁.actions r'.action).handler = _
      rw [hactions]
      exact h.fields r' (List.mem_cons_of_mem _ hr')
    all_goals rw [IrqState.set_description_same]; assumption
  have hdone : ∀ d : IrqDescription, LineInv (s₁.setDescription irq d) irq rest →
      ∃ s', some (s₁.setDescription irq d, (0 : Int)) = some (s', 0) ∧ LineInv s' irq rest ∧
        s'.live = s.live.erase r.action ∧
        (∀ irq' ≠ irq, s'.irqDescriptionTable irq' = s.irqDescriptionTable irq') ∧
        s'.actions = s.actions := by
    intro d hd
    refine ⟨_, rfl, hd, hlive, fun irq' hne => ?_, hactions⟩
    rw [IrqState.set_description_other _ _ hne, hothers irq' hne]
  simp only [IrqState.disableLine, hdesc]
  by_cases hnil : rest = []
  · subst hnil
    have hcontroller := h.controller (by simp)
    have hleft : (s.irqDescriptionTable irq).deviceCount - 1 = 0 := by
      rw [hcount]
      rfl
    simp only [hleft, ne_eq, not_true_eq_false, if_false, hcontroller, if_true, Option.map_some]
    refine hdone _ ?_
    exact hline _ rfl rfl (by simp) (by simp) (by simp)
  · have hpos : rest.length ≠ 0 := fun hzero => hnil (List.eq_nil_of_length_eq_zero hzero)
    have hleft : (s.irqDescriptionTable irq).deviceCount - 1 = rest.length := by
      rw [hcount, List.length_cons]
      omega
    simp only [hleft]
    rw [if_pos (by omega)]
    refine hdone _ ?_
    refine hline _ rfl rfl ?_ ?_ ?_
    · exact iff_of_true (h.enabled.mpr (by simp)) hnil
    · exact fun _ => h.controller (by simp)
    · left
      refine h.shared.resolve_right ?_
      rw [List.length_cons]
      omega

/-! ## What breaks a line -/

/-- When the walk of `UnregisterIRQ` is behind the first action, it changes no link. -/
theorem remove_action_keeps {data fuel p : Nat} {addrs : List Nat}
    (htrail : Trail s.next (some p) addrs)
    (hhead : ∀ b ∈ addrs, (s.irqDescriptionTable irq).action ≠ some b)
    (hremove : s.removeAction irq data fuel p = some s') :
    s'.irqDescriptionTable = s.irqDescriptionTable ∧ s'.next = s.next := by
  induction addrs generalizing fuel p with
  | nil => exact htrail.elim
  | cons b rest ih =>
      obtain ⟨rfl, hrest⟩ := htrail
      cases fuel with
      | zero => cases hremove
      | succ fuel =>
          simp only [IrqState.removeAction, hhead p (by simp), if_false] at hremove
          split at hremove
          · split at hremove
            · simp only [IrqState.kfree] at hremove
              split at hremove
              · -- `prev->next = p->next` with `prev` the removed action itself
                cases hremove
                refine ⟨rfl, ?_⟩
                funext b
                show ((s.setNext p (s.actions p).next).actions b).next = _
                rw [IrqState.set_next_actions]
                split
                · next heq => rw [heq]; rfl
                · rfl
              · cases hremove
            · cases hnext : (s.actions p).next with
              | none =>
                  rw [hnext] at hremove
                  cases hremove
                  exact ⟨rfl, rfl⟩
              | some q =>
                  have hsome : s.next p = some q := hnext
                  rw [hsome] at hrest
                  rw [hnext] at hremove
                  exact ih hrest (fun c hc => hhead c (List.mem_cons_of_mem _ hc)) hremove
          · cases hremove

theorem disable_line_keeps (hdisable : s.disableLine irq = some s') :
    (s'.irqDescriptionTable irq).action = (s.irqDescriptionTable irq).action ∧
      s'.next = s.next := by
  simp only [IrqState.disableLine] at hdisable
  split at hdisable
  · cases hdisable
    exact ⟨by rw [IrqState.set_description_same], rfl⟩
  · split at hdisable
    · cases hdisable
      exact ⟨by rw [IrqState.set_description_same], rfl⟩
    · cases hdisable

/-- `UnregisterIRQ` of an action that is not the first of its line leaves the list as it was. -/
theorem LineInv.unregister_other {r : Registration} {rest : List Registration} {data : Nat}
    {ret : Int} (hirq : irq < nrIrqs) (h : LineInv s irq (r :: rest)) (hr : r.data ≠ data)
    (hlong : rest ≠ []) (hcall : s.unregisterIRQ irq data = some (s', ret)) :
    (s'.irqDescriptionTable irq).action = (s.irqDescriptionTable irq).action ∧
      s'.next = s.next := by
  obtain ⟨hhead, hrest⟩ := h.first
  have hflags : irqfShared (s.irqDescriptionTable irq).flags = true := by
    refine h.shared.resolve_right ?_
    have hpos := List.length_pos_of_ne_nil hlong
    rw [List.length_cons]
    omega
  obtain ⟨hfirst, -⟩ := List.nodup_cons.mp h.nodup
  have hlive := h.live r (by simp)
  have hdata : (s.actions r.action).data ≠ data := by
    rw [(h.fields r (by simp)).1]
    exact hr
  simp only [IrqState.unregisterIRQ, hirq, if_true, IrqState.unlinkAction, hflags, hhead,
    Option.bind_some, IrqState.walkFuel, IrqState.removeAction, hlive, hdata, if_false] at hcall
  cases hnext : (s.actions r.action).next with
  | none =>
      have hnone : s.next r.action = none := hnext
      rw [hnone] at hrest
      exact absurd (List.map_eq_nil_iff.mp hrest.eq_nil) hlong
  | some q =>
      have hsome : s.next r.action = some q := hnext
      rw [hsome] at hrest
      simp only [hnext] at hcall
      obtain ⟨s₂, hbind, heq⟩ := Option.map_eq_some_iff.mp hcall
      cases heq
      obtain ⟨s₁, hremove, hdisable⟩ := Option.bind_eq_some_iff.mp hbind
      obtain ⟨htable, hlinks⟩ := remove_action_keeps hrest (fun b hb hsame => by
        rw [hhead] at hsame
        cases hsame
        exact hfirst hb) hremove
      obtain ⟨haction, hlinks'⟩ := disable_line_keeps hdisable
      exact ⟨by rw [haction, htable], hlinks'.trans hlinks⟩

end

/-! ## Runs -/

variable {s t : IrqSystem}

/-- A call changes one line and leaves the actions of the others alone. -/
theorem IrqInv.update (h : IrqInv s) {s' : IrqState} {irq : Nat} {l : List Registration}
    (hline : LineInv s' irq l)
    (hdesc : ∀ irq' ≠ irq, s'.irqDescriptionTable irq' = s.state.irqDescriptionTable irq')
    (hothers : ∀ irq' < nrIrqs, irq' ≠ irq → ∀ r ∈ s.registered irq',
      s'.actions r.action = s.state.actions r.action ∧ r.action ∈ s'.live ∧
        ∀ r' ∈ l, r'.action ≠ r.action) (hnodup : s'.live.Nodup) :
    IrqInv { s with state := s', registered := Function.update s.registered irq l } := by
  refine ⟨h.noFault, ?_, ?_, hnodup⟩
  · intro irq' hirq'
    by_cases heq : irq' = irq
    · subst heq
      simpa using hline
    · simp only [Function.update_of_ne heq]
      exact (h.lines irq' hirq').congr (hdesc irq' heq)
        (fun r hr => (hothers irq' hirq' heq r hr).1)
        fun r hr => (hothers irq' hirq' heq r hr).2.1
  · intro irq₁ hirq₁ irq₂ hirq₂ hne r₁ hr₁ r₂ hr₂
    simp only [Function.update_apply] at hr₁ hr₂
    split at hr₁
    · next heq₁ =>
        rw [if_neg fun heq₂ => hne (heq₁.trans heq₂.symm)] at hr₂
        exact (hothers irq₂ hirq₂ (fun heq₂ => hne (heq₁.trans heq₂.symm)) r₂ hr₂).2.2 r₁ hr₁
    · next hne₁ =>
        split at hr₂
        · exact ((hothers irq₁ hirq₁ hne₁ r₁ hr₁).2.2 r₂ hr₂).symm
        · exact h.apart irq₁ hirq₁ irq₂ hirq₂ hne r₁ hr₁ r₂ hr₂

/-- A guarded call keeps the invariant. -/
theorem IrqInv.step (h : IrqInv s) {c : IrqCall} (hguard : KeepsLists s c)
    (hstep : irqStep s c = some t) : IrqInv t := by
  cases c with
  | register irq handler flags data a =>
      rw [irqStep] at hstep
      split at hstep
      · next hcall =>
          obtain ⟨hirq, ha⟩ := hcall
          obtain ⟨s', heq, hline, hlive, hdesc, hactions⟩ := @LineInv.register _ _ _
            (h.lines irq hirq) handler flags data a hirq ha hguard
          rw [heq] at hstep
          cases hstep
          refine h.update hline hdesc ?_ ?_
          · intro irq' hirq' hne r hr
            have hold := (h.lines irq' hirq').live r hr
            have hfresh : r.action ≠ a := fun heq => ha (heq ▸ hold)
            have hapart : ∀ r' ∈ s.registered irq, r'.action ≠ r.action := fun r' hr' =>
              h.apart irq hirq irq' hirq' hne.symm r' hr' r hr
            refine ⟨hactions _ hfresh ?_, ?_, ?_⟩
            · intro hmem
              obtain ⟨r', hr', heq⟩ := List.mem_map.mp hmem
              exact hapart r' hr' heq
            · rw [hlive]
              exact List.mem_cons_of_mem _ hold
            · intro r' hr'
              rcases List.mem_append.mp hr' with hr' | hr'
              · exact hapart r' hr'
              · rw [List.mem_singleton.mp hr']
                exact hfresh.symm
          · rw [hlive]
            exact List.nodup_cons.mpr ⟨ha, h.liveNodup⟩
      · cases hstep
  | unregister irq data =>
      obtain ⟨r, rest, hlist, rfl⟩ := hguard
      rw [irqStep] at hstep
      split at hstep
      · next hcall =>
          have hline := h.lines irq hcall.1
          rw [hlist] at hline
          obtain ⟨s', heq, hline', hlive, hdesc, hactions⟩ := hline.unregister hcall.1
          rw [heq] at hstep
          cases hstep
          have herase : (s.registered irq).eraseP (fun r' => r'.data = r.data) = rest := by
            rw [hlist]
            simp
          rw [herase]
          refine h.update hline' hdesc ?_ ?_
          · intro irq' hirq' hne r' hr'
            have hapart : ∀ r₁ ∈ r :: rest, r₁.action ≠ r'.action := fun r₁ hr₁ =>
              h.apart irq hcall.1 irq' hirq' hne.symm r₁ (by rw [hlist]; exact hr₁) r' hr'
            refine ⟨by rw [hactions], ?_, fun r₁ hr₁ => hapart r₁ (List.mem_cons_of_mem _ hr₁)⟩
            rw [hlive]
            exact (List.mem_erase_of_ne (hapart r (by simp)).symm).mpr
              ((h.lines irq' hirq').live r' hr')
          · rw [hlive]
            exact h.liveNodup.erase _
      · cases hstep

/-- A call that leaves the lines as they should be is a guarded one. -/
theorem IrqInv.guarded (h : IrqInv s) {c : IrqCall} (hstep : irqStep s c = some t)
    (hgood : IrqGood t) : KeepsLists s c := by
  cases c with
  | register irq handler flags data a =>
      by_contra hnot
      simp only [KeepsLists, not_or, Bool.not_eq_true] at hnot
      obtain ⟨hflags, hne⟩ := hnot
      rw [irqStep] at hstep
      split at hstep
      · next hcall =>
          obtain ⟨hirq, ha⟩ := hcall
          rw [register_irq_eq hirq, link_action_head (.inl hflags)] at hstep
          cases hstep
          -- the new action is the whole list
          have htrail := hgood.lists irq hirq
          simp only [IrqState.enableLine, IrqState.set_description_same, IrqState.set_head_same,
            Function.update_self, List.map_append, List.map_singleton] at htrail
          have hone : Trail (IrqState.next ((((s.state.setController irq flags).newAction a handler
              flags data).setHead irq (some a)).enableLine irq)) (some a) [a] := by
            refine ⟨rfl, ?_⟩
            have hnull : IrqState.next ((((s.state.setController irq flags).newAction a handler
                flags data).setHead irq (some a)).enableLine irq) a = none := by
              show IrqAction.next (Function.update s.state.actions a ⟨data, handler, flags, none⟩ a) = none
              rw [Function.update_self]
            rw [hnull]
            exact Trail.nil
          have hlength := congrArg List.length (htrail.unique hone)
          simp only [List.length_append, List.length_map, List.length_singleton] at hlength
          exact hne (List.eq_nil_of_length_eq_zero (by omega))
      · cases hstep
  | unregister irq data =>
      rw [irqStep] at hstep
      split at hstep
      · next hcall =>
          obtain ⟨hirq, r', hr', hdata⟩ := hcall
          have hline := h.lines irq hirq
          cases hlist : s.registered irq with
          | nil => simp [hlist] at hr'
          | cons r rest =>
              refine ⟨r, rest, hlist, ?_⟩
              by_contra hr
              rw [hlist] at hline hr'
              have hlong : rest ≠ [] := by
                rintro rfl
                rw [List.mem_singleton.mp hr'] at hdata
                exact hr hdata
              cases hunregister : s.state.unregisterIRQ irq data with
              | none =>
                  rw [hunregister] at hstep
                  cases hstep
                  cases hgood.noFault
              | some res =>
                  obtain ⟨s', ret⟩ := res
                  rw [hunregister] at hstep
                  cases hstep
                  obtain ⟨haction, hlinks⟩ := hline.unregister_other hirq hr hlong hunregister
                  -- the list has not become shorter
                  have htrail := hgood.lists irq hirq
                  simp only [Function.update_self, haction, hlinks, hlist] at htrail
                  have hlength := congrArg List.length (htrail.unique hline.trail)
                  rw [List.length_map, List.length_map,
                    List.length_eraseP_of_mem hr' (by simpa using hdata), List.length_cons]
                    at hlength
                  omega
      · cases hstep

theorem irq_inv_init : IrqInv initIrqSystem := by
  refine ⟨rfl, fun irq _ => ⟨rfl, ?_, ?_, .nil, rfl, ?_, ?_, .inr (Nat.zero_le _)⟩, ?_, .nil⟩
  · simp [initIrqSystem]
  · simp [initIrqSystem]
  · simp [initIrqSystem, initIrqDescription]
  · simp [initIrqSystem]
  · simp [initIrqSystem]

/-- In every run from boot, the lines are as they should be after each call exactly when every call
is a guarded one. -/
theorem irq_lists_iff {calls : List IrqCall}
    (hrun : Run (stepOf irqStep) anyLabel initIrqSystem calls t) :
    (∀ pre u, pre <+: calls → Run (stepOf irqStep) anyLabel initIrqSystem pre u → IrqGood u) ↔
      Run (stepOf irqStep) KeepsLists initIrqSystem calls t :=
  Run.good_iff_guarded (fun _ h => h.good) (fun _ _ _ h hguard hstep => h.step hguard hstep)
    (fun _ _ _ h hstep hgood => h.guarded hstep hgood) irq_inv_init hrun

/-- Two devices share a line, and the one that came first leaves. -/
theorem first_device_leaves : ∃ t,
    Run (stepOf irqStep) anyLabel initIrqSystem
      [.register 5 0x1000 2 7 0x100, .register 5 0x2000 2 8 0x200, .unregister 5 7] t ∧
    t.state.handleIRQ 5 = some [(0x2000, 8)] ∧
    ∀ pre u, pre <+: [.register 5 0x1000 2 7 0x100, .register 5 0x2000 2 8 0x200,
        .unregister 5 7] →
      Run (stepOf irqStep) anyLabel initIrqSystem pre u → IrqGood u := by
  obtain ⟨t, hrun⟩ : ∃ t, Run (stepOf irqStep) KeepsLists initIrqSystem
      [.register 5 0x1000 2 7 0x100, .register 5 0x2000 2 8 0x200, .unregister 5 7] t ∧
      t.state.handleIRQ 5 = some [(0x2000, 8)] :=
    ⟨_, .cons (.inl rfl) rfl (.cons (.inl rfl) rfl (.cons ⟨_, _, rfl, rfl⟩ rfl (.nil _))), by decide⟩
  have hany : Run (stepOf irqStep) anyLabel initIrqSystem _ t := hrun.1.mono fun _ _ _ => trivial
  exact ⟨t, hany, hrun.2, (irq_lists_iff hany).mpr hrun.1⟩

/-- The one that came second leaves: its action is freed and still linked, and the next interrupt
reads it. -/
theorem second_device_still_linked : ∃ t,
    Run (stepOf irqStep) anyLabel initIrqSystem
      [.register 5 0x1000 2 7 0x100, .register 5 0x2000 2 8 0x200, .unregister 5 8] t ∧
    t.state.next 0x100 = some 0x200 ∧ 0x200 ∉ t.state.live ∧ t.state.handleIRQ 5 = none ∧
    ¬ IrqGood t := by
  refine ⟨_, .cons trivial rfl (.cons trivial rfl (.cons trivial rfl (.nil _))), by decide,
    by decide, by decide, fun h => ?_⟩
  have hhandled := h.handled 5 (by decide) (by decide)
  revert hhandled
  decide

end XBook.Irq
