import Multi64.Lib.Act
import Multi64.Lib.Bytes

/-! The agent's EverDrive-64 PRO driver sending: a block at a time, each a
transfer header and its data stored a byte at a time into the port the cart's
MCU reads. Which accesses find the bus taken is a schedule. -/

namespace Multi64

namespace ProSend

def xferBlock : Nat := 1024

def mcuSpins : Nat := 100000

def piIoBurst : Nat := 64

def headLength : Nat := 22

structure Env where
  /-- Whether the driver finds the bus taken, the nth time it waits for it. -/
  pi : Nat → Bool
  /-- Whether the nth read of SYSSTAT finds the MCU busy. -/
  mcuBusy : Nat → Bool

/-- The MCU reads transfer commands: what it has of a header, how much is left
of a transfer's data, and what it has forwarded to USB. -/
structure Mcu where
  head : Bytes
  left : Nat
  usb : Bytes

def Mcu.start : Mcu := ⟨[], 0, []⟩

def Mcu.take (m : Mcu) (b : UInt8) : Mcu :=
  match m.left with
  | left + 1 => { m with left := left, usb := m.usb ++ [b] }
  | 0 =>
    if m.head.length + 1 = headLength then { m with head := [], left := (readBe32 (m.head ++ [b]) 13).toNat }
    else { m with head := m.head ++ [b] }

structure Port where
  mcu : Mcu
  looks : Nat
  statReads : Nat

def Port.start : Port := ⟨.start, 0, 0⟩

abbrev Agent := StateM Port

section Driver

variable (env : Env)

def Port.looked (s : Port) : Port := { s with looks := s.looks + 1 }

def piIdle : Agent Bool := fun s => (!env.pi s.looks, s.looked)

/-- One masked span of stores, each waiting for the one before it. -/
def storeBurst : Bytes → Agent Bool
  | [] => piIdle env
  | b :: rest => do
    if ← piIdle env then
      modify fun s => { s with mcu := s.mcu.take b }
      storeBurst rest
    else pure false

/-- `pi_io_store_port`, with as many bursts left as `fuel`. -/
def storeBursts : (fuel : Nat) → Bytes → Agent Bool
  | 0, _ => pure true
  | fuel + 1, src =>
    if src = [] then pure true
    else do
      if ← piIdle env then
        if ← storeBurst env (src.take piIoBurst) then storeBursts fuel (src.drop piIoBurst) else pure false
      else pure false

def piIoStorePort (src : Bytes) : Agent Bool := storeBursts env src.length src

/-- The frame, the transfer header and the start byte. -/
def xferHead (block : Nat) : Bytes :=
  [0x2B, 0xD4, 0x81, 0x7E, 0x10] ++ putBe32 0 ++ putBe32 0 ++ putBe32 (UInt32.ofNat block) ++ [0x10, 0x18, 0, 0, 0]

def readSysstat : Agent (Option Bool) := do
  if ← piIdle env then
    let s ← get
    set { s with statReads := s.statReads + 1 }
    pure (some (env.mcuBusy s.statReads))
  else pure none

def awaitMcu : Nat → Agent Bool
  | 0 => pure false
  | n + 1 => do
    match ← readSysstat env with
    | none => pure false
    | some busy => if busy then awaitMcu n else pure true

def sendBlock (block : Bytes) : Agent Bool := do
  if ← piIoStorePort env (xferHead block.length) then
    if ← piIoStorePort env block then awaitMcu env mcuSpins else pure false
  else pure false

/-- `ed64pro_send`, with as many blocks left as `fuel`. -/
def sendBlocks : (fuel : Nat) → Bytes → Agent Bool
  | 0, _ => pure true
  | fuel + 1, data =>
    if data = [] then pure true
    else do
      if ← sendBlock env (data.take xferBlock) then sendBlocks fuel (data.drop xferBlock) else pure false

def ed64proSend (data : Bytes) : Agent Bool := sendBlocks env data.length data

/-- One call after another, with what each returns. -/
def sendAll : List Bytes → Agent (List Bool)
  | [] => pure []
  | data :: calls => do
    let sent ← ed64proSend env data
    return sent :: (← sendAll calls)

end Driver

section Mcu

def Mcu.read (m : Mcu) (bytes : Bytes) : Mcu := bytes.foldl Mcu.take m

theorem Mcu.read_append (m : Mcu) (a b : Bytes) : m.read (a ++ b) = (m.read a).read b := List.foldl_append

/-- Between two commands. -/
structure Mcu.Idle (m : Mcu) : Prop where
  head : m.head = []
  left : m.left = 0

theorem Mcu.take_data {m : Mcu} (h : 0 < m.left) (b : UInt8) :
    m.take b = { m with left := m.left - 1, usb := m.usb ++ [b] } := by
  cases hl : m.left with
  | zero => omega
  | succ left => simp [Mcu.take, hl]

theorem Mcu.take_head {m : Mcu} (h : m.left = 0) (hshort : m.head.length + 1 < headLength) (b : UInt8) :
    m.take b = { m with head := m.head ++ [b] } := by
  have hne : m.head.length + 1 ≠ headLength := by omega
  simp [Mcu.take, h, hne]

theorem Mcu.take_start {m : Mcu} (h : m.left = 0) (hfull : m.head.length + 1 = headLength) (b : UInt8) :
    m.take b = { m with head := [], left := (readBe32 (m.head ++ [b]) 13).toNat } := by
  simp [Mcu.take, h, hfull]

/-- Part of a header is kept, and none of it forwarded. -/
theorem Mcu.read_head {m : Mcu} (h : m.left = 0) {p : Bytes} (hshort : m.head.length + p.length < headLength) :
    m.read p = { m with head := m.head ++ p } := by
  induction p generalizing m with
  | nil => simp [Mcu.read]
  | cons b p ih =>
    rw [List.length_cons] at hshort
    have htake := Mcu.take_head h (by omega) b
    have hnext := ih (m := { m with head := m.head ++ [b] }) h (by simp only [List.length_append, List.length_singleton]; omega)
    show (m.take b).read p = _
    rw [htake, hnext]
    simp

/-- A whole header starts a transfer. -/
theorem Mcu.read_xferHead {m : Mcu} (h : m.Idle) {n : Nat} (hn : n ≤ xferBlock) :
    m.read (xferHead n) = { m with head := [], left := n } := by
  have hsize : (UInt32.ofNat n).toNat = n := by
    rw [UInt32.toNat_ofNat']
    unfold xferBlock at hn
    omega
  have hsplit : xferHead n = (xferHead n).take 21 ++ [0] := rfl
  have hlen : ((xferHead n).take 21).length = 21 := rfl
  have hfirst := Mcu.read_head h.left (p := (xferHead n).take 21) (by rw [h.head, hlen]; decide)
  rw [h.head, List.nil_append] at hfirst
  have hword : (readBe32 ((xferHead n).take 21 ++ [0]) 13).toNat = n := by
    have hdrop : ((xferHead n).take 21 ++ [0]).drop 13 = putBe32 (UInt32.ofNat n) ++ [0x10, 0x18, 0, 0, 0] := rfl
    have hread := readBe32_drop ((xferHead n).take 21 ++ [0]) 13 0
    rw [hdrop, readBe32_putBe32] at hread
    rw [← hread, hsize]
  rw [hsplit, Mcu.read_append, hfirst]
  have hlast := Mcu.take_start (m := { m with head := (xferHead n).take 21 }) h.left (by rw [hlen]; rfl) 0
  refine hlast.trans ?_
  rw [hword]

/-- Data of a transfer under way is forwarded as it comes. -/
theorem Mcu.read_data {m : Mcu} (hhead : m.head = []) {p : Bytes} (h : p.length ≤ m.left) :
    m.read p = { m with left := m.left - p.length, usb := m.usb ++ p } := by
  induction p generalizing m with
  | nil => simp [Mcu.read]
  | cons b p ih =>
    rw [List.length_cons] at h
    have htake := Mcu.take_data (m := m) (by omega) b
    have hnext := ih (m := { m with left := m.left - 1, usb := m.usb ++ [b] }) hhead (by show p.length ≤ m.left - 1; omega)
    show (m.take b).read p = _
    rw [htake, hnext]
    simp only [List.length_cons, List.append_assoc, List.singleton_append, Nat.sub_sub, Nat.add_comm 1]

end Mcu

section Store

variable {env : Env} {x y : Port} {α β : Type}

theorem run_bind_eq {m : Agent α} {f : α → Agent β} {a : α} (h : m.run x = (a, y)) : (m >>= f).run x = (f a).run y := by
  show (f (m.run x).1).run (m.run x).2 = _
  rw [h]

/-- What a store of `src` that ended in `y` with `ok` has put into the port: the
front of `src`, and all of it if it is `ok`. -/
def Stored (x : Port) (src : Bytes) (ok : Bool) (y : Port) : Prop :=
  ∃ p, p <+: src ∧ y.mcu = x.mcu.read p ∧ (ok = true → p = src)

theorem storeBurst_stored (src : Bytes) (x : Port) :
    Stored x src ((storeBurst env src).run x).1 ((storeBurst env src).run x).2 := by
  induction src generalizing x with
  | nil => exact ⟨[], List.nil_prefix, rfl, fun _ => rfl⟩
  | cons b rest ih =>
    cases hpi : env.pi x.looks with
    | true =>
      have hidle : (piIdle env).run x = (false, x.looked) := congrArg (·, x.looked) (by simp [hpi])
      rw [storeBurst, run_bind_eq hidle]
      exact ⟨[], List.nil_prefix, rfl, nofun⟩
    | false =>
      have hidle : (piIdle env).run x = (true, x.looked) := congrArg (·, x.looked) (by simp [hpi])
      rw [storeBurst, run_bind_eq hidle]
      obtain ⟨p, hp, hmcu, hall⟩ := ih { x.looked with mcu := x.mcu.take b }
      exact ⟨b :: p, List.cons_prefix_cons.mpr ⟨rfl, hp⟩, hmcu, fun hok => congrArg (b :: ·) (hall hok)⟩

theorem storeBursts_stored (fuel : Nat) {src : Bytes} (hfuel : src.length ≤ fuel) (x : Port) :
    Stored x src ((storeBursts env fuel src).run x).1 ((storeBursts env fuel src).run x).2 := by
  induction fuel generalizing src x with
  | zero =>
    have hsrc : src = [] := List.length_eq_zero_iff.mp (by omega)
    exact ⟨[], List.nil_prefix, rfl, fun _ => hsrc.symm⟩
  | succ fuel ih =>
    by_cases hsrc : src = []
    · rw [storeBursts, if_pos hsrc]
      exact ⟨[], List.nil_prefix, rfl, fun _ => hsrc.symm⟩
    · rw [storeBursts, if_neg hsrc]
      cases hpi : env.pi x.looks with
      | true =>
        have hidle : (piIdle env).run x = (false, x.looked) := congrArg (·, x.looked) (by simp [hpi])
        rw [run_bind_eq hidle]
        exact ⟨[], List.nil_prefix, rfl, nofun⟩
      | false =>
        have hidle : (piIdle env).run x = (true, x.looked) := congrArg (·, x.looked) (by simp [hpi])
        have hburst := @storeBurst_stored env (src.take piIoBurst) x.looked
        rw [run_bind_eq hidle]
        cases hrun : (storeBurst env (src.take piIoBurst)).run x.looked with
        | mk ok y =>
          rw [hrun] at hburst
          obtain ⟨p, hp, hmcu, hall⟩ := hburst
          simp only [reduceIte]
          rw [run_bind_eq hrun]
          cases ok with
          | false => exact ⟨p, hp.trans (List.take_prefix _ _), hmcu, nofun⟩
          | true =>
            have hpos : 0 < src.length := List.length_pos_iff.mpr hsrc
            have hless : (src.drop piIoBurst).length ≤ fuel := by
              rw [List.length_drop]
              unfold piIoBurst
              omega
            obtain ⟨q, hq, hmcu', hall'⟩ := ih hless y
            obtain rfl := hall rfl
            refine ⟨src.take piIoBurst ++ q, ?_, ?_, fun hok => ?_⟩
            · have hjoin := (List.prefix_append_right_inj (src.take piIoBurst)).mpr hq
              rwa [List.take_append_drop] at hjoin
            · rw [Mcu.read_append]
              exact hmcu'.trans (congrArg (Mcu.read · q) hmcu)
            · rw [hall' hok, List.take_append_drop]

theorem piIoStorePort_stored (src : Bytes) (x : Port) :
    Stored x src ((piIoStorePort env src).run x).1 ((piIoStorePort env src).run x).2 :=
  storeBursts_stored src.length (Nat.le_refl _) x

end Store

section Send

variable {env : Env} {x : Port}

theorem awaitMcu_mcu (n : Nat) (x : Port) : ((awaitMcu env n).run x).2.mcu = x.mcu := by
  induction n generalizing x with
  | zero => rfl
  | succ n ih =>
    cases hpi : env.pi x.looks with
    | true =>
      have hidle : (piIdle env).run x = (false, x.looked) := congrArg (·, x.looked) (by simp [hpi])
      have hread : (readSysstat env).run x = (none, x.looked) := run_bind_eq hidle
      rw [awaitMcu, run_bind_eq hread]
      rfl
    | false =>
      have hidle : (piIdle env).run x = (true, x.looked) := congrArg (·, x.looked) (by simp [hpi])
      have hread : (readSysstat env).run x =
          (some (env.mcuBusy x.statReads), { x.looked with statReads := x.statReads + 1 }) := run_bind_eq hidle
      rw [awaitMcu, run_bind_eq hread]
      cases env.mcuBusy x.statReads with
      | true => exact ih { x.looked with statReads := x.statReads + 1 }
      | false => rfl

/-- What a call leaves on the wire: a front of its data, all of it if the call
says so, and then the MCU between two commands. -/
def Sent (x : Port) (data : Bytes) (ok : Bool) (y : Port) : Prop :=
  ∃ part, part <+: data ∧ y.mcu.usb = x.mcu.usb ++ part ∧ (ok = true → part = data ∧ y.mcu.Idle)

/-- A header cut short, or whole with no data behind it, forwards nothing. -/
theorem xferHead_usb {m : Mcu} (h : m.Idle) {n : Nat} (hn : n ≤ xferBlock) {p : Bytes} (hp : p <+: xferHead n) :
    (m.read p).usb = m.usb := by
  by_cases hlen : p.length < headLength
  · rw [Mcu.read_head h.left (by rw [h.head]; simpa using hlen)]
  · have hwhole : p = xferHead n := hp.eq_of_length_le (Nat.le_of_not_lt hlen)
    rw [hwhole, Mcu.read_xferHead h hn]

theorem sendBlock_sent {block : Bytes} (h : x.mcu.Idle) (hsize : block.length ≤ xferBlock) :
    Sent x block ((sendBlock env block).run x).1 ((sendBlock env block).run x).2 := by
  have hheads := @piIoStorePort_stored env (xferHead block.length) x
  cases hrun : (piIoStorePort env (xferHead block.length)).run x with
  | mk ok y =>
    rw [hrun] at hheads
    obtain ⟨p, hp, hmcu, hall⟩ := hheads
    rw [sendBlock, run_bind_eq hrun]
    cases ok with
    | false =>
      refine ⟨[], List.nil_prefix, ?_, nofun⟩
      rw [List.append_nil, ← xferHead_usb h hsize hp]
      exact congrArg Mcu.usb hmcu
    | true =>
      obtain rfl := hall rfl
      rw [Mcu.read_xferHead h hsize] at hmcu
      have hdata := @piIoStorePort_stored env block y
      cases hrun' : (piIoStorePort env block).run y with
      | mk ok z =>
        rw [hrun'] at hdata
        obtain ⟨q, hq, hmcu', hall'⟩ := hdata
        have hleft : q.length ≤ y.mcu.left := by
          rw [hmcu]
          exact hq.length_le
        rw [Mcu.read_data (by rw [hmcu]) hleft] at hmcu'
        have husb : z.mcu.usb = x.mcu.usb ++ q := by rw [hmcu', hmcu]
        simp only [reduceIte]
        rw [run_bind_eq hrun']
        cases ok with
        | false => exact ⟨q, hq, husb, nofun⟩
        | true =>
          obtain rfl := hall' rfl
          have hz := @awaitMcu_mcu env mcuSpins z
          refine ⟨q, hq, ?_, fun _ => ⟨rfl, ?_, ?_⟩⟩
          · exact (congrArg Mcu.usb hz).trans husb
          · exact (congrArg Mcu.head hz).trans (by rw [hmcu', hmcu])
          · exact (congrArg Mcu.left hz).trans (by rw [hmcu', hmcu]; exact Nat.sub_self _)

theorem sendBlocks_sent (fuel : Nat) {data : Bytes} (hfuel : data.length ≤ fuel) (h : x.mcu.Idle) :
    Sent x data ((sendBlocks env fuel data).run x).1 ((sendBlocks env fuel data).run x).2 := by
  induction fuel generalizing data x with
  | zero =>
    have hdata : data = [] := List.length_eq_zero_iff.mp (by omega)
    exact ⟨[], List.nil_prefix, (List.append_nil _).symm, fun _ => ⟨hdata.symm, h⟩⟩
  | succ fuel ih =>
    by_cases hdata : data = []
    · rw [sendBlocks, if_pos hdata]
      exact ⟨[], List.nil_prefix, (List.append_nil _).symm, fun _ => ⟨hdata.symm, h⟩⟩
    · rw [sendBlocks, if_neg hdata]
      have hblock := @sendBlock_sent env x (data.take xferBlock) h (List.length_take_le _ _)
      cases hrun : (sendBlock env (data.take xferBlock)).run x with
      | mk ok y =>
        rw [hrun] at hblock
        obtain ⟨part, hpart, husb, hall⟩ := hblock
        rw [run_bind_eq hrun]
        cases ok with
        | false => exact ⟨part, hpart.trans (List.take_prefix _ _), husb, nofun⟩
        | true =>
          have hpos : 0 < data.length := List.length_pos_iff.mpr hdata
          have hless : (data.drop xferBlock).length ≤ fuel := by
            rw [List.length_drop]
            unfold xferBlock
            omega
          obtain ⟨rfl, hidle⟩ := hall rfl
          obtain ⟨rest, hrest, husb', hall'⟩ := ih hless hidle
          refine ⟨data.take xferBlock ++ rest, ?_, ?_, fun hok => ?_⟩
          · have hjoin := (List.prefix_append_right_inj (data.take xferBlock)).mpr hrest
            rwa [List.take_append_drop] at hjoin
          · rw [← List.append_assoc]
            exact husb'.trans (congrArg (· ++ rest) husb)
          · obtain ⟨rfl, hend⟩ := hall' hok
            exact ⟨List.take_append_drop _ _, hend⟩

/-- With the bus taken for the first span or its first store, nothing reaches the
port. -/
theorem piIoStorePort_lost {b : UInt8} {rest : Bytes} (h : env.pi x.looks = true ∨ env.pi (x.looks + 1) = true) :
    ∃ y, (piIoStorePort env (b :: rest)).run x = (false, y) ∧ y.mcu = x.mcu := by
  have hunfold : piIoStorePort env (b :: rest) = (do
      if ← piIdle env then
        if ← storeBurst env (b :: rest.take 63) then storeBursts env rest.length (rest.drop 63) else pure false
      else pure false) := rfl
  rw [hunfold]
  cases hpi : env.pi x.looks with
  | true =>
    have hidle : (piIdle env).run x = (false, x.looked) := congrArg (·, x.looked) (by simp [hpi])
    exact ⟨x.looked, run_bind_eq hidle, rfl⟩
  | false =>
    have hidle : (piIdle env).run x = (true, x.looked) := congrArg (·, x.looked) (by simp [hpi])
    have hsecond : env.pi x.looked.looks = true := h.resolve_left (by simp [hpi])
    have hidle' : (piIdle env).run x.looked = (false, x.looked.looked) := congrArg (·, x.looked.looked) (by simp [hsecond])
    have hburst : (storeBurst env (b :: rest.take 63)).run x.looked = (false, x.looked.looked) := run_bind_eq hidle'
    refine ⟨x.looked.looked, ?_, rfl⟩
    rw [run_bind_eq hidle]
    exact run_bind_eq hburst

theorem ed64proSend_lost {data : Bytes} (hdata : data ≠ []) (h : env.pi x.looks = true ∨ env.pi (x.looks + 1) = true) :
    ∃ y, (ed64proSend env data).run x = (false, y) ∧ y.mcu = x.mcu := by
  cases data with
  | nil => exact absurd rfl hdata
  | cons b rest =>
    obtain ⟨y, hrun, hmcu⟩ := @piIoStorePort_lost env x 0x2B (xferHead ((b :: rest).take xferBlock).length).tail h
    have hblock : (sendBlock env ((b :: rest).take xferBlock)).run x = (false, y) := run_bind_eq hrun
    refine ⟨y, ?_, hmcu⟩
    rw [ed64proSend, List.length_cons, sendBlocks, if_neg hdata]
    exact run_bind_eq hblock

/-- The call is made with the MCU between two commands, or stores nothing. -/
def Clear (env : Env) (s : Port) (data : Bytes) : Prop :=
  s.mcu.Idle ∨ data = [] ∨ env.pi s.looks = true ∨ env.pi (s.looks + 1) = true

def ClearRun (env : Env) : Port → List Bytes → Prop
  | _, [] => True
  | s, data :: calls => Clear env s data ∧ ClearRun env ((ed64proSend env data).run s).2 calls

/-- What calls that returned `oks` put on the host's stream: the whole of each
one's data, one after another, and of a failed one no more than a front. -/
inductive Arrives : List Bytes → List Bool → Bytes → Prop where
  | nil : Arrives [] [] []
  | cons {data part stream : Bytes} {calls : List Bytes} {ok : Bool} {oks : List Bool} (front : part <+: data)
      (whole : ok = true → part = data) (rest : Arrives calls oks stream) :
      Arrives (data :: calls) (ok :: oks) (part ++ stream)

theorem ed64proSend_arrives {data : Bytes} (h : Clear env x data) :
    ∃ part, part <+: data ∧ ((ed64proSend env data).run x).2.mcu.usb = x.mcu.usb ++ part ∧
      (((ed64proSend env data).run x).1 = true → part = data) := by
  by_cases hidle : x.mcu.Idle
  · obtain ⟨part, hpart, husb, hall⟩ := @sendBlocks_sent env x data.length data (Nat.le_refl _) hidle
    exact ⟨part, hpart, husb, fun hok => (hall hok).1⟩
  · by_cases hdata : data = []
    · subst hdata
      exact ⟨[], List.nil_prefix, (List.append_nil _).symm, fun _ => rfl⟩
    · obtain ⟨y, hrun, hmcu⟩ := ed64proSend_lost hdata ((h.resolve_left hidle).resolve_left hdata)
      rw [hrun]
      exact ⟨[], List.nil_prefix, (congrArg Mcu.usb hmcu).trans (List.append_nil _).symm, nofun⟩

theorem sendAll_arrives (calls : List Bytes) (h : ClearRun env x calls) :
    ∃ stream, ((sendAll env calls).run x).2.mcu.usb = x.mcu.usb ++ stream ∧ Arrives calls ((sendAll env calls).run x).1 stream := by
  induction calls generalizing x with
  | nil => exact ⟨[], (List.append_nil _).symm, .nil⟩
  | cons data calls ih =>
    obtain ⟨part, hpart, husb, hall⟩ := ed64proSend_arrives h.1
    obtain ⟨stream, husb', harrives⟩ := ih h.2
    refine ⟨part ++ stream, ?_, .cons hpart hall harrives⟩
    rw [← List.append_assoc, ← husb]
    exact husb'

/-- In a run whose calls each begin with the MCU between two commands, or store
nothing, the host's stream is the data of the calls that returned 1, whole and
in order, with a front of the data of a failed one and no byte of a header. -/
theorem sends_arrive (env : Env) (calls : List Bytes) (h : ClearRun env .start calls) :
    Arrives calls ((sendAll env calls).run .start).1 ((sendAll env calls).run .start).2.mcu.usb := by
  obtain ⟨stream, husb, harrives⟩ := sendAll_arrives calls h
  exact husb.symm ▸ harrives

/-- The MCU is never busy and the bus is free, but for one wait. -/
private def freeBut (look : Nat) : Env where
  pi n := n == look
  mcuBusy _ := false

theorem sends_arrive_late :
    let out := (sendAll (freeBut 28) [[1, 2, 3], [4, 5]]).run .start
    out.1 = [false, true] ∧ Arrives [[1, 2, 3], [4, 5]] out.1 out.2.mcu.usb := by
  intro out
  have hidle : ((ed64proSend (freeBut 28) [1, 2, 3]).run .start).2.mcu.Idle := ⟨by decide +kernel, by decide +kernel⟩
  exact ⟨by decide +kernel, sends_arrive (freeBut 28) [[1, 2, 3], [4, 5]] ⟨.inl ⟨rfl, rfl⟩, .inl hidle, trivial⟩⟩

/-- A call cut short after one byte of its data: the MCU reads the next call's
header as the rest of it, and that call's data as a header. -/
theorem header_forwarded :
    let out := (sendAll (freeBut 26) [[1, 2, 3], [4, 5]]).run .start
    out.1 = [false, true] ∧ out.2.mcu.usb = [1, 0x2B, 0xD4] ∧ ¬Arrives [[1, 2, 3], [4, 5]] out.1 out.2.mcu.usb := by
  intro out
  have hoks : out.1 = [false, true] := by decide +kernel
  have husb : out.2.mcu.usb = [1, 0x2B, 0xD4] := by decide +kernel
  refine ⟨hoks, husb, ?_⟩
  rw [hoks, husb]
  intro h
  generalize hstream : ([1, 0x2B, 0xD4] : Bytes) = stream at h
  cases h with
  | cons _ _ rest =>
    cases rest with
    | cons _ whole rest =>
      cases rest with
      | nil =>
        rw [whole rfl] at hstream
        have hlast := congrArg List.getLast? hstream
        simp at hlast

end Send

end ProSend

end Multi64
