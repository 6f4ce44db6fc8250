import XBook.Kernel.IdeTransfer

/-!
# Which transfers of an IDE disk are exact

`SelectSector` is given the count of the whole request for each of its commands, so that a command
moves the sectors of its round only for counts below 256 and, with 28-bit addresses, for multiples
of 256. A fault leaves the channel locked. The range check wraps around, and `BusyWait` has no end
of its own. `ide_transfer_iff` puts this together.
-/

namespace XBook.Ide

variable {b : AtaBehaviour} {c c' : AtaController}

/-! ## A round -/

/-- The registers are all that changes. -/
theorem select_fields (dev : IdeDevice) (a : Addressing) (count : Nat) (c : AtaController) :
    let d := selectSector a count (selectDevice dev a c)
    d.left = c.left ∧ d.busy = c.busy ∧ d.moved = c.moved := by
  dsimp only
  rw [selectSector]
  by_cases hmode : a.mode = 2
  · rw [if_pos hmode]
    exact ⟨rfl, rfl, rfl⟩
  · rw [if_neg hmode]
    exact ⟨rfl, rfl, rfl⟩

/-- The drive is no longer busy when the registers are written, nor afterwards. -/
theorem send_transfer_eq (fuel : Nat) (dev : IdeDevice) (rw : BlockCmd) (lba count : Nat)
    (c : AtaController) : sendTransfer b fuel dev rw lba count c =
      let a := selectAddressingMode dev lba
      if c.busy < fuel then
        (selectSector a count (selectDevice dev a c.free)).sendCmd b (selectCmd rw a.mode false)
      else none := by
  rw [sendTransfer, poll_not_busy]
  by_cases hfuel : c.busy < fuel
  · obtain ⟨-, hbusy, -⟩ := select_fields dev (selectAddressingMode dev lba) count c.free
    have hpoll := poll_ready_free (b := b) (Nat.zero_lt_of_lt hfuel) hbusy
    rw [if_pos hfuel, Option.bind_some, hpoll, Option.bind_some, hpoll, Option.bind_some]
    exact (if_pos hfuel).symm
  · rw [if_neg hfuel]
    exact (if_neg hfuel).symm

/-- A PIO command takes its first sector and its count by the mode. -/
theorem send_cmd_pio (hleft : c.left = 0) (rw : BlockCmd) (mode : Nat) :
    c.sendCmd b (selectCmd rw mode false) = some { c.work b with
      next := if mode = 2 then c.address48 else c.address28
      left := if mode = 2 then c.count48 else c.count28 } := by
  rw [AtaController.sendCmd.eq_def, if_neg fun h => h hleft]
  by_cases hmode : mode = 2
  · rw [if_pos hmode, if_pos hmode]
    cases rw with
    | read => rw [selectCmd, if_pos hmode]
    | write => rw [selectCmd, if_pos hmode]
  · rw [if_neg hmode, if_neg hmode]
    cases rw with
    | read => rw [selectCmd, if_neg hmode]
    | write => rw [selectCmd, if_neg hmode]

/-- The command of a round, which the controller takes when no data is pending. -/
theorem send_transfer_spec (hleft : c.left = 0) (dev : IdeDevice) (rw : BlockCmd)
    (lba count : Nat) {fuel : Nat} (hfuel : c.busy < fuel) :
    ∃ c', sendTransfer b fuel dev rw lba count c = some c' ∧
      c'.next = startOf dev lba count c.free ∧
      c'.left = programmed (selectAddressingMode dev lba).mode count ∧ c'.moved = c.moved := by
  obtain ⟨hnone, -, hmoved⟩ := select_fields dev (selectAddressingMode dev lba) count c.free
  rw [send_transfer_eq]
  dsimp only
  rw [if_pos hfuel, send_cmd_pio (hnone.trans hleft)]
  refine ⟨_, rfl, rfl, ?_, hmoved⟩
  dsimp only
  by_cases hmode : (selectAddressingMode dev lba).mode = 2
  · rw [if_pos hmode, select_count48 dev _ count _ hmode]
  · rw [if_neg hmode, select_count28 dev _ count _ hmode]

/-- It takes no other. -/
theorem send_transfer_some {dev : IdeDevice} {rw : BlockCmd} {lba count fuel : Nat}
    (h : sendTransfer b fuel dev rw lba count c = some c') : c.busy < fuel ∧ c.left = 0 := by
  obtain ⟨hnone, -, -⟩ := select_fields dev (selectAddressingMode dev lba) count c.free
  rw [send_transfer_eq] at h
  dsimp only at h
  by_cases hfuel : c.busy < fuel
  · rw [if_pos hfuel, AtaController.sendCmd.eq_def] at h
    refine ⟨hfuel, ?_⟩
    by_contra hleft
    rw [if_pos fun h0 => hleft (hnone.symm.trans h0)] at h
    cases h
  · rw [if_neg hfuel] at h
    cases h

/-! ## The sectors of a round -/

/-- The sectors that a round moves, with their places. -/
def sectorsFrom (next place count : Nat) : List (Nat × Nat) :=
  (List.range count).map fun i => (next + i, place + i)

theorem sectors_from_succ (next place count : Nat) : sectorsFrom next place (count + 1) =
    (next, place) :: sectorsFrom (next + 1) (place + 1) count := by
  rw [sectorsFrom, List.range_succ_eq_map, List.map_cons, List.map_map]
  refine congrArg ((next, place) :: ·) (List.map_congr_left fun i _ => ?_)
  exact Prod.ext (by dsimp only [Function.comp]; omega) (by dsimp only [Function.comp]; omega)

theorem sectors_from_add (next place m n : Nat) : sectorsFrom next place (m + n) =
    sectorsFrom next place m ++ sectorsFrom (next + m) (place + m) n := by
  rw [sectorsFrom, List.range_add, List.map_append, List.map_map]
  refine congrArg (sectorsFrom next place m ++ ·) (List.map_congr_left fun i _ => ?_)
  exact Prod.ext (Nat.add_assoc _ _ _).symm (Nat.add_assoc _ _ _).symm

/-- All sectors of a round have been moved. -/
structure Moved (b : AtaBehaviour) (place count : Nat) (c c' : AtaController) : Prop where
  room : count ≤ c.left
  good : ∀ i < count, b.fault (c.moved.length + i) = none
  left : c'.left = c.left - count
  moved : c'.moved = c.moved ++ sectorsFrom c.next place count

/-- A round of the loop: its sector, and then the others. -/
theorem Moved.cons {place count : Nat} {d : AtaController} (hleft : c.left ≠ 0)
    (hgood : b.fault c.moved.length = none) (hd : d = c.free.moveSector b place)
    (h : Moved b (place + 1) count d c') : Moved b place (count + 1) c c' := by
  have hdleft : d.left = c.left - 1 := by rw [hd]; rfl
  have hdmoved : d.moved = c.moved ++ [(c.next, place)] := by rw [hd]; rfl
  have hdnext : d.next = c.next + 1 := by rw [hd]; rfl
  have hroom := h.room
  refine ⟨by omega, fun i hi => ?_, ?_, ?_⟩
  · cases i with
    | zero => exact hgood
    | succ i =>
        have hnext := h.good i (by omega)
        rwa [hdmoved, List.length_append, List.length_singleton, Nat.add_assoc,
          Nat.add_comm 1 i] at hnext
  · rw [h.left]
    omega
  · rw [h.moved, hdmoved, hdnext, sectors_from_succ, List.append_assoc]
    rfl

/-- The loop of `PioDataTransfer` without an error. -/
theorem pio_loop_zero {fuel place count : Nat} (h : pioLoop b fuel count place c = some (0, c')) :
    Moved b place count c c' := by
  induction count generalizing place c with
  | zero =>
      cases h
      refine ⟨Nat.zero_le _, fun i hi => absurd hi (Nat.not_lt_zero i), rfl, ?_⟩
      exact (List.append_nil _).symm
  | succ count ih =>
      by_cases hleft : c.left = 0
      · rw [pioLoop, busy_wait_none hleft] at h
        cases h
      · rw [pioLoop, busy_wait_eq hleft] at h
        by_cases hfuel : c.busy < fuel
        · rw [if_pos hfuel, Option.bind_some] at h
          by_cases hfault : faultCode (b.fault c.moved.length) = 0
          · rw [if_neg fun hne => hne hfault] at h
            exact Moved.cons hleft (fault_code_eq_zero.mp hfault) rfl (ih h)
          · rw [if_pos hfault] at h
            exact absurd (Prod.mk.inj (Option.some.inj h)).1 hfault
        · rw [if_neg hfuel] at h
          cases h

/-- With an error there is a faulty sector. -/
theorem pio_loop_fault {fuel place count : Nat} {err : UInt8} (herr : err ≠ 0)
    (h : pioLoop b fuel count place c = some (err, c')) :
    ∃ i < count, b.fault (c.moved.length + i) ≠ none := by
  induction count generalizing place c with
  | zero =>
      cases h
      exact absurd rfl herr
  | succ count ih =>
      by_cases hleft : c.left = 0
      · rw [pioLoop, busy_wait_none hleft] at h
        cases h
      · rw [pioLoop, busy_wait_eq hleft] at h
        by_cases hfuel : c.busy < fuel
        · rw [if_pos hfuel, Option.bind_some] at h
          by_cases hfault : faultCode (b.fault c.moved.length) = 0
          · rw [if_neg fun hne => hne hfault] at h
            obtain ⟨i, hi, hbad⟩ := ih h
            refine ⟨i + 1, Nat.succ_lt_succ hi, ?_⟩
            rwa [AtaController.moveSector, List.length_append, List.length_singleton,
              Nat.add_assoc, Nat.add_comm 1 i] at hbad
          · exact ⟨0, Nat.succ_pos count, fun hnone => hfault (fault_code_eq_zero.mpr hnone)⟩
        · rw [if_neg hfuel] at h
          cases h

/-- It ends when the command has enough sectors. -/
theorem pio_loop_ends (place count : Nat) (hroom : count ≤ c.left) :
    ∃ r bound, ∀ fuel, bound ≤ fuel → pioLoop b fuel count place c = some r := by
  induction count generalizing place c with
  | zero => exact ⟨_, 0, fun fuel _ => rfl⟩
  | succ count ih =>
      have hleft : c.left ≠ 0 := by omega
      obtain ⟨r, bound, hrest⟩ := ih (c := c.free.moveSector b place) (place + 1)
        (show count ≤ c.left - 1 by omega)
      by_cases hfault : faultCode (b.fault c.moved.length) = 0
      · refine ⟨r, max bound (c.busy + 1), fun fuel hfuel => ?_⟩
        rw [pioLoop, busy_wait_eq hleft, if_pos (by omega), Option.bind_some,
          if_neg fun hne => hne hfault]
        exact hrest fuel (by omega)
      · refine ⟨(faultCode (b.fault c.moved.length), c.free.reset), c.busy + 1,
          fun fuel hfuel => ?_⟩
        rw [pioLoop, busy_wait_eq hleft, if_pos (by omega), Option.bind_some, if_pos hfault]

/-- The cache is flushed when no data is pending. -/
theorem send_cmd_flush (mode : Nat) :
    c.sendCmd b (if 1 < mode then .cacheFlushExt else .cacheFlush) =
      if c.left = 0 then some (c.work b) else none := by
  rw [AtaController.sendCmd.eq_def]
  by_cases hleft : c.left = 0
  · rw [if_neg fun h => h hleft, if_pos hleft]
    by_cases hmode : 1 < mode
    · rw [if_pos hmode]
    · rw [if_neg hmode]
  · rw [if_pos hleft, if_neg hleft]

theorem pio_data_transfer_zero {fuel mode place count : Nat} {rw : BlockCmd}
    (h : pioDataTransfer b fuel rw mode place count c = some (0, c')) :
    Moved b place count c c' := by
  obtain ⟨⟨err, d⟩, hloop, hend⟩ := Option.bind_eq_some_iff.mp h
  by_cases herr : err ≠ 0
  · rw [if_pos herr] at hend
    exact absurd (Prod.mk.inj (Option.some.inj hend)).1 herr
  · rw [if_neg herr] at hend
    obtain rfl := not_not.mp herr
    have hmoved := pio_loop_zero hloop
    cases rw with
    | read =>
        cases hend
        exact hmoved
    | write =>
        dsimp only at hend
        rw [send_cmd_flush] at hend
        by_cases hleft : d.left = 0
        · rw [if_pos hleft, Option.bind_some, poll_not_busy] at hend
          by_cases hfuel : (d.work b).busy < fuel
          · rw [if_pos hfuel] at hend
            cases hend
            exact ⟨hmoved.room, hmoved.good, hmoved.left, hmoved.moved⟩
          · rw [if_neg hfuel] at hend
            cases hend
        · rw [if_neg hleft] at hend
          cases hend

theorem pio_data_transfer_fault {fuel mode place count : Nat} {rw : BlockCmd} {err : UInt8}
    (herr : err ≠ 0) (h : pioDataTransfer b fuel rw mode place count c = some (err, c')) :
    ∃ i < count, b.fault (c.moved.length + i) ≠ none := by
  obtain ⟨⟨err', d⟩, hloop, hend⟩ := Option.bind_eq_some_iff.mp h
  by_cases herr' : err' ≠ 0
  · exact pio_loop_fault herr' hloop
  · rw [if_neg herr'] at hend
    cases rw with
    | read =>
        cases hend
        exact absurd herr herr'
    | write =>
        obtain ⟨d', -, hflush⟩ := Option.bind_eq_some_iff.mp hend
        obtain ⟨d'', -, hzero⟩ := Option.map_eq_some_iff.mp hflush
        exact absurd (Prod.mk.inj hzero).1.symm herr

/-- A transfer ends when the command has just its sectors. -/
theorem pio_data_transfer_ends (rw : BlockCmd) (mode place : Nat) {count : Nat}
    (hleft : c.left = count) :
    ∃ r bound, ∀ fuel, bound ≤ fuel → pioDataTransfer b fuel rw mode place count c = some r := by
  obtain ⟨⟨err, d⟩, bound, hloop⟩ := pio_loop_ends (b := b) place count (Nat.le_of_eq hleft.symm)
  by_cases herr : err ≠ 0
  · refine ⟨(err, d), bound, fun fuel hfuel => ?_⟩
    rw [pioDataTransfer, hloop fuel hfuel, Option.bind_some, if_pos herr]
  · obtain rfl := not_not.mp herr
    have hdone : d.left = 0 := by
      rw [(pio_loop_zero (hloop bound le_rfl)).left, hleft, Nat.sub_self]
    cases rw with
    | read =>
        refine ⟨(0, d), bound, fun fuel hfuel => ?_⟩
        rw [pioDataTransfer, hloop fuel hfuel, Option.bind_some, if_neg herr]
    | write =>
        refine ⟨(0, (d.work b).free), max bound ((d.work b).busy + 1), fun fuel hfuel => ?_⟩
        rw [pioDataTransfer, hloop fuel (by omega), Option.bind_some, if_neg herr]
        dsimp only
        rw [send_cmd_flush, if_pos hdone, Option.bind_some, poll_not_busy, if_pos (by omega)]
        rfl

/-! ## All rounds -/

/-- Every round moves the whole count or 256 sectors. -/
def Even (count : Nat) : Prop := count < 256 ∨ count % 256 = 0

/-- A round begins at a multiple of 256, or all are over. -/
def RoundStart (count done : Nat) : Prop := done ≤ count ∧ (done % 256 = 0 ∨ done = count)

/-- A round whose command is told the number of its sectors. -/
def RoundFits (dev : IdeDevice) (lba count done : Nat) : Prop :=
  programmed (selectAddressingMode dev (lba + done)).mode count = todoOf count done

/-- The sectors of a round, and where the next one starts. -/
theorem round_next {count done : Nat} (heven : Even count) (hcount : count < 2 ^ 32)
    (hstart : RoundStart count done) (hlt : done < count) : 0 < todoOf count done ∧
      RoundStart count (done + todoOf count done) ∧
        wrap (done + todoOf count done) = done + todoOf count done := by
  have hzero : done % 256 = 0 := hstart.2.resolve_right (Nat.ne_of_lt hlt)
  rw [todoOf, wrap, wrap, RoundStart]
  rcases heven with hsmall | hmultiple
  · rw [if_neg (by omega)]
    omega
  · rw [if_pos (by omega)]
    omega

variable {dev : IdeDevice} {rw : BlockCmd} {lba count fuel rounds done place : Nat}

/-- A round of the loop. -/
theorem transfer_loop_round (hlt : done < count) {r : UInt8 × AtaController}
    (h : transferLoop b fuel dev rw lba count (rounds + 1) done place c = some r) :
    ∃ d, c.left = 0 ∧ d.next = startOf dev (wrap (lba + done)) count c.free ∧
      d.left = programmed (selectAddressingMode dev (wrap (lba + done))).mode count ∧
      d.moved = c.moved ∧ ∃ e, pioDataTransfer b fuel rw
        (selectAddressingMode dev (wrap (lba + done))).mode place (todoOf count done) d = some e ∧
        (e.1 ≠ 0 ∧ r = e ∨ e.1 = 0 ∧ transferLoop b fuel dev rw lba count rounds
          (wrap (done + todoOf count done)) (place + todoOf count done) e.2 = some r) := by
  rw [transferLoop, if_pos hlt] at h
  obtain ⟨d, hsend, hmore⟩ := Option.bind_eq_some_iff.mp h
  obtain ⟨e, hpio, hend⟩ := Option.bind_eq_some_iff.mp hmore
  obtain ⟨hfuel, hleft⟩ := send_transfer_some hsend
  obtain ⟨d', hsend', hnext, hprogrammed, hmoved⟩ :=
    send_transfer_spec (b := b) hleft dev rw (wrap (lba + done)) count hfuel
  obtain rfl : d = d' := Option.some.inj (hsend.symm.trans hsend')
  refine ⟨d, hleft, hnext, hprogrammed, hmoved, e, hpio, ?_⟩
  by_cases herr : e.1 ≠ 0
  · rw [if_pos herr] at hend
    exact .inl ⟨herr, (Option.some.inj hend).symm⟩
  · rw [if_neg herr] at hend
    exact .inr ⟨not_not.mp herr, hend⟩

/-- With an error there is a faulty sector. -/
theorem transfer_loop_fault (heven : Even count) (hcount : count < 2 ^ 32)
    (hstart : RoundStart count done) {err : UInt8} (herr : err ≠ 0)
    (h : transferLoop b fuel dev rw lba count rounds done place c = some (err, c')) :
    ∃ i < count - done, b.fault (c.moved.length + i) ≠ none := by
  induction rounds generalizing done place c with
  | zero => cases h
  | succ rounds ih =>
      by_cases hlt : done < count
      · obtain ⟨hpos, hnextStart, hwrap⟩ := round_next heven hcount hstart hlt
        have hle := hnextStart.1
        obtain ⟨d, -, -, -, hmoved, ⟨err', e⟩, hpio, hcases⟩ := transfer_loop_round hlt h
        obtain ⟨-, heq⟩ | ⟨hzero, hrest⟩ := hcases
        · cases heq
          obtain ⟨i, hi, hbad⟩ := pio_data_transfer_fault herr hpio
          refine ⟨i, by omega, ?_⟩
          rwa [hmoved] at hbad
        · obtain rfl : err' = 0 := hzero
          rw [hwrap] at hrest
          obtain ⟨i, hi, hbad⟩ := ih hnextStart hrest
          refine ⟨todoOf count done + i, by omega, ?_⟩
          rwa [(pio_data_transfer_zero hpio).moved, hmoved, List.length_append, sectorsFrom,
            List.length_map, List.length_range, Nat.add_assoc] at hbad
      · rw [transferLoop, if_neg hlt] at h
        exact absurd (Prod.mk.inj (Option.some.inj h)).1.symm herr

/-- What is pending at the beginning is pending at the end. -/
theorem transfer_loop_left (hleft : c'.left = 0)
    (h : transferLoop b fuel dev rw lba count rounds done place c = some (0, c')) :
    c.left = 0 := by
  cases rounds with
  | zero => cases h
  | succ rounds =>
      by_cases hlt : done < count
      · obtain ⟨d, hnone, -⟩ := transfer_loop_round hlt h
        exact hnone
      · rw [transferLoop, if_neg hlt] at h
        cases h
        exact hleft

/-- Without an error, and with no data pending at the end, every round has moved the sectors of its
command. -/
theorem transfer_loop_fits (hrange : lba + count < 2 ^ 32) (heven : Even count)
    (hstart : RoundStart count done) (hleft : c'.left = 0)
    (h : transferLoop b fuel dev rw lba count rounds done place c = some (0, c')) :
    (∀ d, done ≤ d → d < count → d % 256 = 0 → RoundFits dev lba count d) ∧
      ∀ i < count - done, b.fault (c.moved.length + i) = none := by
  induction rounds generalizing done place c with
  | zero => cases h
  | succ rounds ih =>
      by_cases hlt : done < count
      · obtain ⟨hpos, hnextStart, hwrap⟩ := round_next heven (by omega) hstart hlt
        have hle := hnextStart.1
        obtain ⟨d, -, -, hprogrammed, hmoved, ⟨err, e⟩, hpio, hcases⟩ :=
          transfer_loop_round hlt h
        obtain ⟨herr, heq⟩ | ⟨hzero, hrest⟩ := hcases
        · cases heq
          exact absurd rfl herr
        · obtain rfl : err = 0 := hzero
          rw [hwrap] at hrest
          obtain ⟨hfits, hgood⟩ := ih hnextStart hrest
          have hround := pio_data_transfer_zero hpio
          have hadd : wrap (lba + done) = lba + done := Nat.mod_eq_of_lt (by omega)
          have hroom := hround.room
          have hover := hround.left
          have hpending := transfer_loop_left hleft hrest
          have hfit : RoundFits dev lba count done := by
            rw [RoundFits, ← hadd, ← hprogrammed]
            dsimp only at hpending
            omega
          have hlength : e.moved.length = c.moved.length + todoOf count done := by
            rw [hround.moved, hmoved, List.length_append, sectorsFrom, List.length_map,
              List.length_range]
          constructor
          · intro next hnext hbelow hmultiple
            by_cases hfirst : next = done
            · rw [hfirst]
              exact hfit
            · refine hfits next ?_ hbelow hmultiple
              have hzero := hstart.2.resolve_right (Nat.ne_of_lt hlt)
              have hsmall : todoOf count done ≤ 256 := by
                rw [todoOf]
                rcases heven with hsmall | hmul
                · split <;> omega
                · rw [if_pos (by rw [wrap]; omega)]
              omega
          · intro i hi
            by_cases hin : i < todoOf count done
            · have hone := hround.good i hin
              rwa [hmoved] at hone
            · have hlater := hgood (i - todoOf count done) (by omega)
              dsimp only at hlater
              rwa [hlength, Nat.add_assoc, Nat.add_sub_cancel' (Nat.le_of_not_lt hin)] at hlater
      · refine ⟨fun d hd hbelow => absurd (Nat.lt_of_le_of_lt hd hbelow) hlt, fun i hi => ?_⟩
        omega

/-- When every round fits, the sectors are moved in order. -/
theorem transfer_loop_moved (hlba : dev.capabilities &&& 0x200 ≠ 0)
    (hrange : lba + count < 2 ^ 32) (heven : Even count) (hstart : RoundStart count done)
    (h : transferLoop b fuel dev rw lba count rounds done place c = some (0, c')) :
    c'.moved = c.moved ++ sectorsFrom (lba + done) place (count - done) := by
  induction rounds generalizing done place c with
  | zero => cases h
  | succ rounds ih =>
      by_cases hlt : done < count
      · obtain ⟨hpos, hnextStart, hwrap⟩ := round_next heven (by omega) hstart hlt
        have hle := hnextStart.1
        have hadd : wrap (lba + done) = lba + done := Nat.mod_eq_of_lt (by omega)
        obtain ⟨d, -, hnext, -, hmoved, ⟨err, e⟩, hpio, hcases⟩ := transfer_loop_round hlt h
        obtain ⟨herr, heq⟩ | ⟨hzero, hrest⟩ := hcases
        · cases heq
          exact absurd rfl herr
        · obtain rfl : err = 0 := hzero
          rw [hwrap] at hrest
          rw [hadd, start_of_lba hlba (by omega)] at hnext
          have hsum : todoOf count done + (count - (done + todoOf count done)) = count - done := by
            rw [← Nat.sub_sub, Nat.add_sub_of_le (Nat.le_sub_of_add_le' hle)]
          rw [ih hnextStart hrest, (pio_data_transfer_zero hpio).moved, hmoved, hnext,
            List.append_assoc, ← Nat.add_assoc, ← sectors_from_add, hsum]
      · rw [transferLoop, if_neg hlt] at h
        cases h
        rw [Nat.sub_eq_zero_of_le (Nat.le_of_not_lt hlt)]
        exact (List.append_nil _).symm

/-- When every round fits, the loop ends, with no data pending unless there was an error. -/
theorem transfer_loop_ends (rw : BlockCmd) (place : Nat) (hrange : lba + count < 2 ^ 32)
    (heven : Even count) (n : Nat) (hn : count - done ≤ n) (hstart : RoundStart count done)
    (hfits : ∀ d, done ≤ d → d < count → d % 256 = 0 → RoundFits dev lba count d)
    (hleft : c.left = 0) :
    ∃ r bound, (r.1 = 0 → r.2.left = 0) ∧ ∀ fuel rounds, bound ≤ fuel → n < rounds →
      transferLoop b fuel dev rw lba count rounds done place c = some r := by
  induction n generalizing done place c with
  | zero =>
      have hlt : ¬done < count := by omega
      refine ⟨(0, c), 0, fun _ => hleft, fun fuel rounds _ hrounds => ?_⟩
      obtain ⟨rounds, rfl⟩ := Nat.exists_eq_succ_of_ne_zero (Nat.ne_of_gt hrounds)
      rw [transferLoop, if_neg hlt]
  | succ n ih =>
      by_cases hlt : done < count
      · obtain ⟨hpos, hnextStart, hwrap⟩ := round_next heven (by omega) hstart hlt
        have hadd : wrap (lba + done) = lba + done := Nat.mod_eq_of_lt (by omega)
        have hzero := hstart.2.resolve_right (Nat.ne_of_lt hlt)
        have hle := hnextStart.1
        obtain ⟨d, hsend, -, hprogrammed, -⟩ :=
          send_transfer_spec (b := b) hleft dev rw (lba + done) count (Nat.lt_succ_self c.busy)
        have hsent : ∀ fuel, c.busy < fuel →
            sendTransfer b fuel dev rw (lba + done) count c = some d := by
          intro fuel hfuel
          rw [← hsend, send_transfer_eq, send_transfer_eq]
          dsimp only
          rw [if_pos hfuel, if_pos (Nat.lt_succ_self c.busy)]
        have hfit : d.left = todoOf count done :=
          hprogrammed.trans (hfits done le_rfl hlt hzero)
        obtain ⟨⟨err, e⟩, bound, hpio⟩ := pio_data_transfer_ends (b := b) rw
          (selectAddressingMode dev (lba + done)).mode place hfit
        by_cases herr : err ≠ 0
        · refine ⟨(err, e), max bound (c.busy + 1), fun h0 => absurd h0 herr,
            fun fuel rounds hfuel hrounds => ?_⟩
          obtain ⟨rounds, rfl⟩ := Nat.exists_eq_succ_of_ne_zero (Nat.ne_zero_of_lt hrounds)
          rw [transferLoop, if_pos hlt, hadd, hsent fuel (by omega), Option.bind_some,
            hpio fuel (by omega), Option.bind_some, if_pos herr]
        · obtain rfl := not_not.mp herr
          have hdone : e.left = 0 := by
            rw [(pio_data_transfer_zero (hpio bound le_rfl)).left, hfit, Nat.sub_self]
          obtain ⟨r, bound', hend, hloop⟩ := ih (place + todoOf count done) (by omega) hnextStart
            (fun d hd => hfits d (by omega)) hdone
          refine ⟨r, max (max bound bound') (c.busy + 1), hend, fun fuel rounds hfuel hrounds => ?_⟩
          obtain ⟨rounds, rfl⟩ := Nat.exists_eq_succ_of_ne_zero (Nat.ne_zero_of_lt hrounds)
          rw [transferLoop, if_pos hlt, hadd, hsent fuel (by omega), Option.bind_some,
            hpio fuel (by omega), Option.bind_some, if_neg herr, hwrap]
          exact hloop fuel rounds (by omega) (by omega)
      · refine ⟨(0, c), 0, fun _ => hleft, fun fuel rounds _ hrounds => ?_⟩
        obtain ⟨rounds, rfl⟩ := Nat.exists_eq_succ_of_ne_zero (Nat.ne_zero_of_lt hrounds)
        rw [transferLoop, if_neg hlt]

/-! ## The whole request -/

/-- `AtaTypeTransfer` ends, and either has an error or has moved the sectors of the request in
order, with none pending. -/
def Transfers (b : AtaBehaviour) (dev : IdeDevice) (rw : BlockCmd) (lba count : UInt32)
    (c : AtaController) : Prop :=
  ∃ fuel r, ataTypeTransfer b fuel dev rw lba count c = some r ∧
    (r.1 ≠ 0 ∨ r.2.controller.left = 0 ∧
      r.2.controller.moved = c.moved ++ sectorsFrom lba.toNat 0 count.toNat)

/-- Wherever it returns the lock is free. -/
def LockReleased (b : AtaBehaviour) (dev : IdeDevice) (rw : BlockCmd) (lba count : UInt32)
    (c : AtaController) : Prop :=
  ∀ fuel r, ataTypeTransfer b fuel dev rw lba count c = some r → r.2.locked = false

/-- Only requests within the device are admitted. -/
def RangeChecked (dev : IdeDevice) (lba count : UInt32) : Prop :=
  InRange dev lba count → lba.toNat + count.toNat ≤ dev.size.toNat

/-- `BusyWait` returns for this sequence of status values. -/
def BusyWaitReturns (values : Nat → UInt8) : Prop :=
  ∃ fuel r, busyWait (fun n => (values n, n + 1)) fuel timeLimit 0 = some r

/-- The counts that `SelectSector` programs right for every round: those below 256, and the
multiples of 256 up to the last round with a 28-bit address. -/
def CountFits (lba count : Nat) : Prop :=
  count < 256 ∨ count % 256 = 0 ∧ lba + count < 2 ^ 28 + 256

theorem todo_small {count : Nat} (hsmall : count < 256) : todoOf count 0 = count :=
  if_neg (Nat.not_le_of_lt hsmall)

theorem todo_large {count done : Nat} (hstep : done + 256 ≤ count) (hcount : count < 2 ^ 32) :
    todoOf count done = 256 := by
  rw [todoOf, wrap, Nat.mod_eq_of_lt (Nat.lt_of_le_of_lt hstep hcount), if_pos hstep]

theorem round_fits_iff {dev : IdeDevice} (hlba : dev.capabilities &&& 0x200 ≠ 0) {lba count : Nat}
    (hpos : 0 < count) (hcount : count < 2 ^ 32) :
    CountFits lba count ↔
      Even count ∧ ∀ d, d < count → d % 256 = 0 → RoundFits dev lba count d := by
  simp only [CountFits, Even, RoundFits, programmed, lba_mode hlba]
  constructor
  · rintro (hsmall | ⟨hmul, hlast⟩)
    · refine ⟨.inl hsmall, fun d hd hzero => ?_⟩
      obtain rfl : d = 0 := by omega
      rw [if_neg (by omega), todo_small hsmall]
      exact Nat.mod_eq_of_lt hsmall
    · refine ⟨.inr hmul, fun d hd hzero => ?_⟩
      have hmode : (if 2 ^ 28 ≤ lba + d then 2 else 1) ≠ 2 := by
        rw [if_neg (by omega)]
        decide
      rw [if_pos hmul, if_neg hmode, todo_large (by omega) hcount]
  · rintro ⟨hsmall | hmul, hall⟩
    · exact .inl hsmall
    · refine .inr ⟨hmul, ?_⟩
      have hlast := hall (count - 256) (by omega) (by omega)
      by_contra hfar
      have hmode : (if 2 ^ 28 ≤ lba + (count - 256) then 2 else 1) = 2 := if_pos (by omega)
      rw [if_pos hmul, if_pos hmode, todo_large (by omega) hcount] at hlast
      exact absurd hlast (by decide)

/-- The first round tells that the count is even. -/
theorem even_of_first {mode count : Nat} (hcount : count < 2 ^ 32)
    (hfit : programmed mode count = todoOf count 0) : Even count := by
  by_cases hsmall : count < 256
  · exact .inl hsmall
  · rw [todo_large (by omega) hcount, programmed] at hfit
    by_cases hmul : count % 256 = 0
    · exact .inr hmul
    · rw [if_neg hmul] at hfit
      omega

/-- What has been moved stays in the record. -/
theorem transfer_loop_prefix {r : UInt8 × AtaController} (hzero : r.1 = 0)
    (h : transferLoop b fuel dev rw lba count rounds done place c = some r) :
    ∃ more, r.2.moved = c.moved ++ more := by
  induction rounds generalizing done place c with
  | zero => cases h
  | succ rounds ih =>
      by_cases hlt : done < count
      · obtain ⟨d, -, -, -, hmoved, ⟨err, e⟩, hpio, hcases⟩ := transfer_loop_round hlt h
        obtain ⟨herr, rfl⟩ | ⟨hnone, hrest⟩ := hcases
        · exact absurd hzero herr
        · obtain rfl : err = 0 := hnone
          obtain ⟨more, hmore⟩ := ih hrest
          refine ⟨sectorsFrom d.next place (todoOf count done) ++ more, ?_⟩
          rw [hmore, (pio_data_transfer_zero hpio).moved, hmoved, List.append_assoc]
      · rw [transferLoop, if_neg hlt] at h
        cases h
        exact ⟨[], (List.append_nil _).symm⟩

/-- A request that has been moved began with its first sector, and its first command was told the
number of its sectors. -/
theorem transfer_loop_first {lba count : UInt32} (hpos : 0 < count.toNat) (hleft : c'.left = 0)
    (hmoved : c'.moved = c.moved ++ sectorsFrom lba.toNat 0 count.toNat)
    (h : transferLoop b fuel dev rw lba.toNat count.toNat rounds 0 0 c = some (0, c')) :
    dev.capabilities &&& 0x200 ≠ 0 ∧ Even count.toNat := by
  cases rounds with
  | zero => cases h
  | succ rounds =>
      have hlba : wrap (lba.toNat + 0) = lba.toNat := Nat.mod_eq_of_lt lba.toNat_lt
      obtain ⟨d, -, hnext, hprogrammed, hsame, ⟨err, e⟩, hpio, hcases⟩ :=
        transfer_loop_round hpos h
      obtain ⟨herr, heq⟩ | ⟨hzero, hrest⟩ := hcases
      · cases heq
        exact absurd rfl herr
      · obtain rfl : err = 0 := hzero
        have hround := pio_data_transfer_zero hpio
        have hpending := transfer_loop_left hleft hrest
        have hroom := hround.room
        have hover := hround.left
        dsimp only at hpending
        have hfit : d.left = todoOf count.toNat 0 := by omega
        refine ⟨fun hchs => ?_, even_of_first count.toNat_lt (hprogrammed.symm.trans hfit)⟩
        obtain ⟨more, hmore⟩ := transfer_loop_prefix rfl hrest
        have htodo : ∃ n, todoOf count.toNat 0 = n + 1 := by
          refine Nat.exists_eq_succ_of_ne_zero ?_
          rw [todoOf]
          split <;> omega
        obtain ⟨n, hn⟩ := htodo
        obtain ⟨m, hm⟩ := Nat.exists_eq_succ_of_ne_zero hpos.ne'
        dsimp only at hmore
        rw [hmoved, hround.moved, hsame, hn, hm, List.append_assoc, sectors_from_succ,
          sectors_from_succ] at hmore
        have hhead := List.head_eq_of_cons_eq (List.append_cancel_left hmore)
        rw [hlba] at hnext
        exact start_of_chs hchs lba.toNat_lt _ _ (hnext.symm.trans (Prod.mk.inj hhead).1.symm)

/-- A request of the device is moved, and the lock released, where the drive supports LBA, the count
fits and no sector is faulty. -/
theorem transfers_iff (b : AtaBehaviour) (rw : BlockCmd) {lba count : UInt32}
    (hpos : 1 ≤ count.toNat) (hrange : lba.toNat + count.toNat ≤ dev.size.toNat)
    (hleft : c.left = 0) (hmoved : c.moved = []) :
    Transfers b dev rw lba count c ∧ LockReleased b dev rw lba count c ↔
      dev.capabilities &&& 0x200 ≠ 0 ∧ CountFits lba.toNat count.toNat ∧
        ∀ i < count.toNat, b.fault i = none := by
  have hsum : lba.toNat + count.toNat < 2 ^ 32 := Nat.lt_of_le_of_lt hrange dev.size.toNat_lt
  have hstart : RoundStart count.toNat 0 := ⟨Nat.zero_le _, .inl rfl⟩
  have hindex : ∀ i, c.moved.length + i = i := by
    intro i
    rw [hmoved, List.length_nil, Nat.zero_add]
  constructor
  · rintro ⟨⟨fuel, r, hr, hright⟩, hlock⟩
    obtain ⟨⟨err, e⟩, hloop, hend⟩ := Option.map_eq_some_iff.mp hr
    have hfree := hlock fuel r hr
    by_cases herr : err ≠ 0
    · rw [if_pos herr] at hend
      rw [← hend] at hfree
      cases hfree
    · rw [if_neg herr] at hend
      obtain rfl := not_not.mp herr
      rw [← hend] at hright
      obtain ⟨hnone, hall⟩ := hright.resolve_left fun h => h rfl
      obtain ⟨hlba, heven⟩ := transfer_loop_first hpos hnone hall hloop
      obtain ⟨hfits, hgood⟩ := transfer_loop_fits hsum heven hstart hnone hloop
      refine ⟨hlba, (round_fits_iff hlba hpos (by omega)).mpr ⟨heven, fun d =>
        hfits d (Nat.zero_le d)⟩, fun i hi => ?_⟩
      have hone := hgood i hi
      rwa [hindex] at hone
  · rintro ⟨hlba, hcount, hgood⟩
    obtain ⟨heven, hfits⟩ := (round_fits_iff hlba hpos (by omega)).mp hcount
    have hzero : ∀ {fuel : Nat} {e : UInt8 × AtaController},
        transferLoop b fuel dev rw lba.toNat count.toNat fuel 0 0 c = some e → e.1 = 0 := by
      intro fuel e hloop
      by_contra herr
      obtain ⟨i, hi, hbad⟩ := transfer_loop_fault heven (by omega) hstart herr hloop
      rw [hindex] at hbad
      exact hbad (hgood i hi)
    constructor
    · obtain ⟨⟨err, e⟩, bound, hdone, hloop⟩ := transfer_loop_ends (b := b) rw 0 hsum heven
        count.toNat (Nat.sub_le _ 0) hstart (fun d _ => hfits d) hleft
      have hend := hloop (max bound (count.toNat + 1)) (max bound (count.toNat + 1)) (by omega)
        (by omega)
      obtain rfl : err = 0 := hzero hend
      refine ⟨max bound (count.toNat + 1), (0, ⟨e, false⟩), ?_, .inr ⟨hdone rfl, ?_⟩⟩
      · rw [ataTypeTransfer, hend]
        rfl
      · exact transfer_loop_moved hlba hsum heven hstart hend
    · intro fuel r hr
      obtain ⟨e, hloop, hend⟩ := Option.map_eq_some_iff.mp hr
      rw [if_neg fun h => h (hzero hloop)] at hend
      rw [← hend]

/-! ## The range check and `BusyWait` -/

/-- The range check works where the sum of both numbers does not wrap around, or is too large even
then. -/
theorem range_checked_iff {lba count : UInt32} (hata : dev.type = .ata) :
    RangeChecked dev lba count ↔
      lba.toNat + count.toNat < 2 ^ 32 ∨ dev.size < lba + count := by
  have hsum : (lba + count).toNat = (lba.toNat + count.toNat) % 2 ^ 32 := UInt32.toNat_add lba count
  have hsize := dev.size.toNat_lt
  have hadmitted : InRange dev lba count ↔ ¬dev.size < lba + count :=
    not_congr (and_iff_left hata)
  rw [RangeChecked, hadmitted, UInt32.lt_iff_toNat_lt, hsum]
  constructor
  · intro hchecked
    by_contra hnot
    rw [not_or] at hnot
    have hwithin := hchecked hnot.2
    omega
  · rintro (hsmall | hlarge) hnot
    · rw [Nat.mod_eq_of_lt hsmall] at hnot
      exact Nat.le_of_not_lt hnot
    · exact absurd hlarge hnot

/-- A round of `BusyWait` that ends it: the drive is not busy, and then shows a fault or asks for
data. -/
def RoundEnds (values : Nat → UInt8) (n : Nat) : Prop :=
  values n &&& statusBusy = 0 ∧ (values (n + 1) &&& statusErr ≠ 0 ∨
    values (n + 1) &&& statusDf ≠ 0 ∨ values (n + 1) &&& statusDrq ≠ 0)

/-- Where the round after this one begins. -/
def nextRound (values : Nat → UInt8) (n : Nat) : Nat :=
  if values n &&& statusBusy = 0 then n + 2 else n + 1

/-- A round that does not end it. -/
theorem busy_wait_next {values : Nat → UInt8} {n : Nat} (h : ¬RoundEnds values n) (fuel : Nat)
    (limit : UInt32) : busyWait (fun n => (values n, n + 1)) (fuel + 1) limit n =
      busyWait (fun n => (values n, n + 1)) fuel (limit - 1) (nextRound values n) := by
  rw [busyWait, nextRound]
  dsimp only
  rw [if_pos (UInt32.le_iff_toNat_le.mpr (Nat.zero_le _))]
  by_cases hbusy : values n &&& statusBusy = 0
  · rw [RoundEnds, not_and, not_or, not_or] at h
    obtain ⟨herr, hdf, hdrq⟩ := h hbusy
    rw [if_pos hbusy, if_pos hbusy, if_neg herr, if_neg hdf, if_neg hdrq]
  · rw [if_neg hbusy, if_neg hbusy]

/-- A round that does. -/
theorem busy_wait_ends {values : Nat → UInt8} {n : Nat} (h : RoundEnds values n) (fuel : Nat)
    (limit : UInt32) :
    ∃ r, busyWait (fun n => (values n, n + 1)) (fuel + 1) limit n = some r := by
  rw [busyWait]
  dsimp only
  rw [if_pos (UInt32.le_iff_toNat_le.mpr (Nat.zero_le _)), if_pos h.1]
  by_cases herr : values (n + 1) &&& statusErr ≠ 0
  · exact ⟨_, if_pos herr⟩
  · rw [if_neg herr]
    by_cases hdf : values (n + 1) &&& statusDf ≠ 0
    · exact ⟨_, if_pos hdf⟩
    · rw [if_neg hdf]
      exact ⟨_, if_pos ((h.2.resolve_left herr).resolve_left hdf)⟩

/-- `BusyWait` returns just for the values of which some round ends it. -/
theorem busy_wait_returns_iff (values : Nat → UInt8) :
    BusyWaitReturns values ↔ ∃ i, RoundEnds values ((nextRound values)^[i] 0) := by
  constructor
  · rintro ⟨fuel, r, h⟩
    suffices hall : ∀ (n : Nat) (limit : UInt32),
        busyWait (fun n => (values n, n + 1)) fuel limit n = some r →
          ∃ i, RoundEnds values ((nextRound values)^[i] n) from hall 0 timeLimit h
    clear h
    induction fuel with
    | zero => exact fun n limit h => absurd h (Option.some_ne_none r).symm
    | succ fuel ih =>
        intro n limit h
        by_cases hend : RoundEnds values n
        · exact ⟨0, hend⟩
        · rw [busy_wait_next hend] at h
          obtain ⟨i, hi⟩ := ih _ _ h
          exact ⟨i + 1, hi⟩
  · rintro ⟨i, hi⟩
    suffices hall : ∀ (n : Nat) (limit : UInt32), RoundEnds values ((nextRound values)^[i] n) →
        ∃ fuel r, busyWait (fun n => (values n, n + 1)) fuel limit n = some r from
      hall 0 timeLimit hi
    clear hi
    induction i with
    | zero => exact fun n limit h => ⟨1, busy_wait_ends h 0 limit⟩
    | succ i ih =>
        intro n limit h
        by_cases hend : RoundEnds values n
        · exact ⟨1, busy_wait_ends hend 0 limit⟩
        · obtain ⟨fuel, r, hr⟩ := ih (nextRound values n) (limit - 1) h
          exact ⟨fuel + 1, r, by rw [busy_wait_next hend]; exact hr⟩

/-- A request within the device is moved, and its lock released, where the drive supports LBA, the
count fits and no sector is faulty; the range check works where its sum does not wrap around, or is
too large even then; and `BusyWait` returns where one of its rounds ends it. -/
theorem ide_transfer_iff (b : AtaBehaviour) (dev : IdeDevice) (rw : BlockCmd)
    (lba count : UInt32) (c : AtaController) (values : Nat → UInt8) :
    (1 ≤ count.toNat → lba.toNat + count.toNat ≤ dev.size.toNat → c.left = 0 → c.moved = [] →
      (Transfers b dev rw lba count c ∧ LockReleased b dev rw lba count c ↔
        dev.capabilities &&& 0x200 ≠ 0 ∧ CountFits lba.toNat count.toNat ∧
          ∀ i < count.toNat, b.fault i = none)) ∧
    (dev.type = .ata →
      (RangeChecked dev lba count ↔
        lba.toNat + count.toNat < 2 ^ 32 ∨ dev.size < lba + count)) ∧
    (BusyWaitReturns values ↔ ∃ i, RoundEnds values ((nextRound values)^[i] 0)) :=
  ⟨transfers_iff b rw, range_checked_iff, busy_wait_returns_iff values⟩

/-- A disk of a thousand sectors, and a controller that is never busy and has no faulty sector. -/
abbrev thousandSectors : IdeDevice := ⟨⟨0, Nat.zero_lt_two⟩, .ata, 0x200, 1000⟩
abbrev quickController : AtaBehaviour := ⟨fun _ => 0, fun _ => none⟩
abbrev idleController : AtaController := ⟨fun _ => (0, 0), 0, 0, 0, 0, []⟩

/-- 512 sectors are moved, and `BusyWait` returns when the drive asks for data. -/
theorem two_rounds_moved :
    Transfers quickController thousandSectors .read 100 512 idleController ∧
      LockReleased quickController thousandSectors .read 100 512 idleController ∧
        RangeChecked thousandSectors 100 512 ∧ BusyWaitReturns fun _ => statusDrq := by
  obtain ⟨htransfer, hrange, hwait⟩ := ide_transfer_iff quickController thousandSectors .read 100
    512 idleController fun _ => statusDrq
  obtain ⟨hmoved, hlock⟩ := (htransfer (by decide) (by decide) rfl rfl).mpr
    ⟨by decide, .inr (by decide), fun _ _ => rfl⟩
  exact ⟨hmoved, hlock, (hrange rfl).mpr (.inl (by decide)),
    hwait.mpr ⟨0, by decide, .inr (.inr (by decide))⟩⟩

/-- A request of 300 sectors is not moved, a fault leaves the channel locked, the range check admits
sectors from `2 ^ 32 - 1` on, and `BusyWait` does not return while the drive is busy. -/
theorem ide_transfer_fails :
    ¬(Transfers quickController thousandSectors .read 0 300 idleController ∧
      LockReleased quickController thousandSectors .read 0 300 idleController) ∧
    ¬(Transfers ⟨fun _ => 0, fun _ => some .err⟩ thousandSectors .read 0 1 idleController ∧
      LockReleased ⟨fun _ => 0, fun _ => some .err⟩ thousandSectors .read 0 1 idleController) ∧
    ¬RangeChecked thousandSectors 0xFFFFFFFF 2 ∧ ¬BusyWaitReturns fun _ => statusBusy := by
  refine ⟨fun h => ?_, fun h => ?_, fun h => ?_, fun h => ?_⟩
  · obtain ⟨-, hcount, -⟩ := (transfers_iff _ _ (by decide) (by decide) rfl rfl).mp h
    exact absurd hcount (by unfold CountFits; decide)
  · obtain ⟨-, -, hgood⟩ := (transfers_iff _ _ (by decide) (by decide) rfl rfl).mp h
    exact absurd (hgood 0 (by decide)) (Option.some_ne_none _)
  · exact absurd ((range_checked_iff rfl).mp h) (by decide)
  · obtain ⟨i, hi⟩ := (busy_wait_returns_iff _).mp h
    exact absurd (show statusBusy &&& statusBusy = 0 from hi.1) (by decide)

end XBook.Ide
