import Multi64.Sc64Driver

/-! What the SummerCart64 driver leaves the cart's write-enable at, over every
schedule of the PI bus and every list of calls. -/

namespace Multi64

namespace Sc64Driver

variable {env : Env} {x y : Driver} {α β : Type}

/-- The cart's write-enable and the driver's record of it. -/
def Driver.setting (s : Driver) : UInt32 × UInt32 × Bool := (s.romWrite, s.romWriteRestore, s.romWriteRestorePending)

section Leaves

/-- An action that changes neither the write-enable nor the record of it. -/
def Leaves (m : Agent α) : Prop := ∀ s, (m.run s).2.setting = s.setting

theorem Leaves.pure (a : α) : Leaves (Pure.pure a : Agent α) := fun _ => rfl

theorem Leaves.bind {m : Agent α} {f : α → Agent β} (hm : Leaves m) (hf : ∀ a, Leaves (f a)) : Leaves (m >>= f) := by
  intro s
  have h : ((m >>= f).run s).2 = ((f (m.run s).1).run (m.run s).2).2 := rfl
  rw [h, hf, hm]

theorem Leaves.after {m : Agent α} {f : α → Agent β} (hf : ∀ a, Leaves (f a)) (s : Driver) :
    ((m >>= f).run s).2.setting = (m.run s).2.setting := hf _ _

theorem Leaves.ite {c : Prop} [Decidable c] {m m' : Agent α} (hm : Leaves m) (hm' : Leaves m') :
    Leaves (if c then m else m') := by
  by_cases h : c
  · rw [if_pos h]
    exact hm
  · rw [if_neg h]
    exact hm'

theorem Cart.load_romWrite (reg : Reg) (c : Cart) : (c.load reg).2.romWrite = c.romWrite := by
  cases reg with
  | data0 => rfl
  | data1 => rfl
  | srCmd => by_cases h : 0 < c.busyReads <;> simp [Cart.load, h]

theorem Cart.stage_romWrite (pos : Nat) (word : UInt32) (c : Cart) : (c.stage pos word).romWrite = c.romWrite := by
  by_cases h : c.romWrite = 0 <;> simp [Cart.stage, h]

theorem Cart.command_romWrite (r : Reply) {cmd : Cmd} (h : cmd ≠ .configSet) (c : Cart) :
    (c.command r cmd).romWrite = c.romWrite := by
  by_cases hr : r.refused = true
  · simp [Cart.command, hr]
  · cases cmd <;> simp [Cart.command, hr] at h ⊢

variable (env)

theorem piIdle_leaves : Leaves (piIdle env) := fun _ => rfl

theorem ioRead_leaves (reg : Reg) : Leaves (ioRead env reg) := by
  refine (piIdle_leaves env).bind fun idle => .ite (fun s => ?_) (.pure none)
  have h : (s.toCart.load reg).2.romWrite = s.romWrite := Cart.load_romWrite reg s.toCart
  exact congrArg (·, s.romWriteRestore, s.romWriteRestorePending) h

theorem ioWrite_leaves {store : Cart → Cart} (h : ∀ c, (store c).romWrite = c.romWrite) : Leaves (ioWrite env store) :=
  (piIdle_leaves env).bind fun _ =>
    .ite (fun s => congrArg (·, s.romWriteRestore, s.romWriteRestorePending) (h s.toCart)) (.pure false)

theorem ioCommand_leaves {cmd : Cmd} (h : cmd ≠ .configSet) : Leaves (ioCommand env cmd) :=
  (piIdle_leaves env).bind fun _ =>
    .ite (fun s => congrArg (·, s.romWriteRestore, s.romWriteRestorePending) (Cart.command_romWrite _ h s.toCart)) (.pure false)

theorem loadWord_leaves (pos : Nat) : Leaves (loadWord env pos) :=
  (piIdle_leaves env).bind fun _ => .ite (fun _ => rfl) (.pure none)

theorem storeWords_leaves (data : Nat → UInt32) (pos n : Nat) : Leaves (storeWords env data pos n) := by
  induction n generalizing pos with
  | zero => exact piIdle_leaves env
  | succ n ih =>
    have hstore : Leaves (ioWrite env (Cart.stage pos (data pos))) := ioWrite_leaves env (Cart.stage_romWrite pos (data pos))
    exact hstore.bind fun _ => .ite (ih (pos + 1)) (.pure false)

theorem storeSpans_leaves (data : Nat → UInt32) (words fuel done : Nat) : Leaves (storeSpans env data words fuel done) := by
  induction fuel generalizing done with
  | zero => exact .pure true
  | succ fuel ih =>
    refine .ite ((piIdle_leaves env).bind fun _ => .ite ?_ (.pure false)) (.pure true)
    exact (storeWords_leaves env data done _).bind fun _ => .ite (ih _) (.pure false)

theorem storeArgs_leaves (args : Option (UInt32 × UInt32)) : Leaves (storeArgs env args) := by
  cases args with
  | none => exact .pure true
  | some args =>
    refine Leaves.bind (ioWrite_leaves env fun _ => rfl) fun stored => ?_
    cases stored with
    | false => exact .pure false
    | true =>
      have hdata1 : Leaves (ioWrite env fun c => { c with data1 := args.2 }) := ioWrite_leaves env fun _ => rfl
      exact hdata1

theorem awaitCmd_leaves (n : Nat) : Leaves (awaitCmd env n) := by
  induction n with
  | zero => exact .pure none
  | succ n ih =>
    refine Leaves.bind (ioRead_leaves env .srCmd) fun sr => ?_
    cases sr with
    | none => exact .pure none
    | some sr => exact .ite (.pure _) ih

theorem loadResult_leaves (wanted : Bool) : Leaves (loadResult env wanted) := by
  cases wanted with
  | false => exact .pure _
  | true =>
    refine Leaves.bind (ioRead_leaves env .data0) fun result0 => ?_
    cases result0 with
    | none => exact .pure none
    | some result0 =>
      refine Leaves.bind (ioRead_leaves env .data1) fun result1 => ?_
      cases result1 <;> exact .pure _

theorem awaitResult_leaves (wanted : Bool) : Leaves (awaitResult env wanted) := by
  refine Leaves.bind (awaitCmd_leaves env _) fun sr => ?_
  cases sr with
  | none => exact .pure _
  | some sr =>
    refine Leaves.bind (loadResult_leaves env wanted) fun result => ?_
    cases result <;> exact .pure _

theorem sc64Cmd_leaves {cmd : Cmd} (h : cmd ≠ .configSet) (args : Option (UInt32 × UInt32)) (wanted : Bool) :
    Leaves (sc64Cmd env cmd args wanted) := by
  refine Leaves.bind (Leaves.bind (storeArgs_leaves env args) fun stored => ?_) fun _ => .pure _
  refine .ite (Leaves.bind (ioCommand_leaves env h) fun sent => ?_) (.pure _)
  exact .ite (awaitResult_leaves env wanted) (.pure _)

theorem awaitUsb_leaves {status : Cmd} (h : status ≠ .configSet) (n : Nat) : Leaves (awaitUsb env status n) := by
  induction n with
  | zero => exact .pure false
  | succ n ih =>
    refine Leaves.bind (sc64Cmd_leaves env h none true) fun result => ?_
    cases result with
    | none => exact .pure false
    | some result => exact .ite (.pure true) ih

theorem readBack_leaves (data : Nat → UInt32) (len : Nat) : Leaves (readBack env data len) := by
  refine Leaves.bind (loadWord_leaves env 0) fun first => ?_
  cases first with
  | none => exact .pure false
  | some first =>
    refine Leaves.bind (loadWord_leaves env _) fun last => ?_
    cases last <;> exact .pure _

end Leaves

section Enable

variable (env)

theorem piIdle_bind (f : Bool → Agent α) (x : Driver) : (piIdle env >>= f).run x = (f (!env.pi x.looks)).run x.looked :=
  rfl

theorem ioRead_lost {reg : Reg} (h : env.pi x.looks = true) : (ioRead env reg).run x = (none, x.looked) := by
  rw [ioRead, piIdle_bind, h]
  rfl

theorem ioRead_run {reg : Reg} (h : env.pi x.looks = false) :
    (ioRead env reg).run x = (some (x.toCart.load reg).1, { x.looked with toCart := (x.toCart.load reg).2 }) := by
  rw [ioRead, piIdle_bind, h]
  rfl

theorem ioWrite_lost {store : Cart → Cart} (h : env.pi x.looks = true) : (ioWrite env store).run x = (false, x.looked) := by
  rw [ioWrite, piIdle_bind, h]
  rfl

theorem ioWrite_run {store : Cart → Cart} (h : env.pi x.looks = false) :
    (ioWrite env store).run x = (true, { x.looked with toCart := store x.toCart }) := by
  rw [ioWrite, piIdle_bind, h]
  rfl

theorem ioCommand_lost {cmd : Cmd} (h : env.pi x.looks = true) : (ioCommand env cmd).run x = (false, x.looked) := by
  rw [ioCommand, piIdle_bind, h]
  rfl

theorem ioCommand_run {cmd : Cmd} (h : env.pi x.looks = false) :
    (ioCommand env cmd).run x =
      (true, { x.looked with toCart := x.toCart.command (env.reply x.commands) cmd, commands := x.commands + 1 }) := by
  rw [ioCommand, piIdle_bind, h]
  rfl

/-- What follows an access, by what the access came to. -/
theorem run_bind_eq {m : Agent α} {f : α → Agent β} {a : α} (h : m.run x = (a, y)) : (m >>= f).run x = (f a).run y := by
  show (f (m.run x).1).run (m.run x).2 = _
  rw [h]

/-- The cart is still at work. -/
def Driver.busyRead (x : Driver) : Driver := { x.looked with busyReads := x.busyReads - 1 }

theorem awaitCmd_lost {n : Nat} (h : env.pi x.looks = true) : (awaitCmd env (n + 1)).run x = (none, x.looked) :=
  run_bind_eq (ioRead_lost env h)

theorem awaitCmd_busy {n : Nat} (h : env.pi x.looks = false) (hbusy : 0 < x.busyReads) :
    (awaitCmd env (n + 1)).run x = (awaitCmd env n).run x.busyRead := by
  have hload : x.toCart.load .srCmd = (srCmdBusy, { x.toCart with busyReads := x.busyReads - 1 }) := if_pos hbusy
  have hbit : srCmdBusy &&& srCmdBusy ≠ 0 := by decide
  rw [awaitCmd, run_bind_eq (ioRead_run env h), hload]
  simp only [if_neg hbit]
  rfl

theorem awaitCmd_ended {n : Nat} (h : env.pi x.looks = false) (hbusy : x.busyReads = 0) :
    (awaitCmd env (n + 1)).run x = (some (if x.refused then srCmdError else 0), x.looked) := by
  have hload : x.toCart.load .srCmd = (if x.refused then srCmdError else 0, x.toCart) := if_neg (by omega)
  have hbit : (if x.refused then srCmdError else 0) &&& srCmdBusy = 0 := by cases x.refused <;> decide
  rw [awaitCmd, run_bind_eq (ioRead_run env h), hload]
  simp only [if_pos hbit]
  rfl

/-- Waiting leaves the command's result where it is, and a status without the
error bit is that of a command the cart took. -/
theorem awaitCmd_spec (n : Nat) (x : Driver) :
    ((awaitCmd env n).run x).2.data1 = x.data1 ∧
      ∀ sr, ((awaitCmd env n).run x).1 = some sr → sr &&& srCmdError = 0 → x.refused = false := by
  induction n generalizing x with
  | zero => exact ⟨rfl, nofun⟩
  | succ n ih =>
    by_cases h : env.pi x.looks = true
    · rw [awaitCmd_lost env h]
      exact ⟨rfl, nofun⟩
    · have h : env.pi x.looks = false := by simpa using h
      by_cases hbusy : 0 < x.busyReads
      · rw [awaitCmd_busy env h hbusy]
        exact ih x.busyRead
      · rw [awaitCmd_ended env h (by omega)]
        refine ⟨rfl, fun sr hsr hok => ?_⟩
        obtain rfl := Option.some.inj hsr
        cases hr : x.refused with
        | false => rfl
        | true => simp [hr, srCmdError] at hok

/-- With the bus free throughout, it is heard when a command the cart took is
over. -/
theorem awaitCmd_heard {n : Nat} (hbusy : x.busyReads < n) (hok : x.refused = false)
    (hpi : ∀ i < x.busyReads + 1, env.pi (x.looks + i) = false) :
    ∃ y, (awaitCmd env n).run x = (some 0, y) ∧ y.looks = x.looks + (x.busyReads + 1) := by
  induction n generalizing x with
  | zero => omega
  | succ n ih =>
    have h : env.pi x.looks = false := hpi 0 (by omega)
    by_cases hpos : 0 < x.busyReads
    · have hnext : ∀ i < x.busyRead.busyReads + 1, env.pi (x.busyRead.looks + i) = false := by
        intro i hi
        have hlt : i < x.busyReads - 1 + 1 := hi
        have hlook := hpi (i + 1) (by omega)
        rwa [show x.looks + (i + 1) = x.busyRead.looks + i by simp only [Driver.busyRead, Driver.looked]; omega] at hlook
      obtain ⟨y, hy, hlooks⟩ := ih (x := x.busyRead) (by simp only [Driver.busyRead]; omega) hok hnext
      refine ⟨y, by rw [awaitCmd_busy env h hpos, hy], ?_⟩
      rw [hlooks]
      simp only [Driver.busyRead, Driver.looked]
      omega
    · refine ⟨x.looked, by rw [awaitCmd_ended env h (by omega), hok]; rfl, ?_⟩
      simp only [Driver.looked]
      omega

theorem loadResult_spec {result : UInt32 × UInt32} (h : ((loadResult env true).run x).1 = some result) : result.2 = x.data1 := by
  by_cases h0 : env.pi x.looks = true
  · have hrun : (loadResult env true).run x = (none, x.looked) := run_bind_eq (ioRead_lost env h0)
    rw [hrun] at h
    exact absurd h nofun
  · have h0 : env.pi x.looks = false := by simpa using h0
    by_cases h1 : env.pi (x.looks + 1) = true
    · have hrun : (loadResult env true).run x = (none, x.looked.looked) :=
        (run_bind_eq (ioRead_run env h0)).trans (run_bind_eq (ioRead_lost env h1))
      rw [hrun] at h
      exact absurd h nofun
    · have h1 : env.pi (x.looks + 1) = false := by simpa using h1
      have hrun : (loadResult env true).run x = (some (x.data0, x.data1), x.looked.looked) :=
        (run_bind_eq (ioRead_run env h0)).trans (run_bind_eq (ioRead_run env h1))
      rw [hrun] at h
      exact congrArg Prod.snd (Option.some.inj h).symm

theorem loadResult_heard (h0 : env.pi x.looks = false) (h1 : env.pi (x.looks + 1) = false) :
    ∃ result, ((loadResult env true).run x).1 = some result := by
  have hrun : (loadResult env true).run x = (some (x.data0, x.data1), x.looked.looked) :=
    (run_bind_eq (ioRead_run env h0)).trans (run_bind_eq (ioRead_run env h1))
  exact ⟨_, congrArg Prod.fst hrun⟩

theorem awaitResult_spec (x : Driver) :
    ((awaitResult env true).run x).1 ≠ .notSent ∧
      ∀ result0 result1, ((awaitResult env true).run x).1 = .done result0 result1 → x.refused = false ∧ result1 = x.data1 := by
  have hwait := awaitCmd_spec env sc64CmdSpins x
  cases hcmd : (awaitCmd env sc64CmdSpins).run x with
  | mk sr y =>
    rw [hcmd] at hwait
    rw [awaitResult, run_bind_eq hcmd]
    cases sr with
    | none => exact ⟨nofun, nofun⟩
    | some sr =>
      cases hload : (loadResult env true).run y with
      | mk result z =>
        rw [run_bind_eq hload]
        cases result with
        | none => exact ⟨nofun, nofun⟩
        | some result =>
          have hdata : result.2 = y.data1 := loadResult_spec env (congrArg Prod.fst hload)
          by_cases hok : sr &&& srCmdError = 0
          · simp only [if_pos hok]
            refine ⟨nofun, fun result0 result1 hdone => ⟨hwait.2 sr rfl hok, ?_⟩⟩
            obtain ⟨-, rfl⟩ := Ran.done.inj hdone
            exact hdata.trans hwait.1
          · simp only [if_neg hok]
            exact ⟨nofun, nofun⟩

theorem awaitResult_heard (hbusy : x.busyReads < sc64CmdSpins) (hok : x.refused = false)
    (hpi : ∀ i < x.busyReads + 3, env.pi (x.looks + i) = false) : ((awaitResult env true).run x).1 ≠ .unknown := by
  obtain ⟨y, hcmd, hlooks⟩ := awaitCmd_heard env hbusy hok fun i hi => hpi i (by omega)
  have h0 : env.pi y.looks = false := hlooks ▸ hpi (x.busyReads + 1) (by omega)
  have h1 : env.pi (y.looks + 1) = false := hlooks ▸ hpi (x.busyReads + 2) (by omega)
  obtain ⟨result, hresult⟩ := loadResult_heard env h0 h1
  rw [awaitResult, run_bind_eq hcmd]
  cases hload : (loadResult env true).run y with
  | mk r z =>
    rw [hload] at hresult
    obtain rfl : r = some result := hresult
    rw [run_bind_eq hload]
    exact nofun

/-- The bus is free for the enable's two arguments and its command. -/
def Reaches (env : Env) (x : Driver) : Prop := ∀ i < 3, env.pi (x.looks + i) = false

/-- The cart takes the command that reaches it and ends it in time, with the bus
free for every read of the status and for the two of the result. -/
def Heard (env : Env) (x : Driver) : Prop :=
  (env.reply x.commands).busyReads < sc64CmdSpins ∧ (env.reply x.commands).refused = false ∧
    ∀ i < (env.reply x.commands).busyReads + 3, env.pi (x.looks + 3 + i) = false

/-- The state once the command has landed. -/
def Driver.enabling (env : Env) (enable : UInt32) (x : Driver) : Driver :=
  { x with
    toCart := ({ x.toCart with data0 := cfgRomWriteEnable, data1 := enable } : Cart).command (env.reply x.commands) .configSet
    looks := x.looks + 3
    commands := x.commands + 1 }

theorem storeArgs_run {arg0 arg1 : UInt32} (h0 : env.pi x.looks = false) (h1 : env.pi (x.looks + 1) = false) :
    (storeArgs env (some (arg0, arg1))).run x =
      (true, { x with toCart := { x.toCart with data0 := arg0, data1 := arg1 }, looks := x.looks + 2 }) := by
  let y : Driver := { x.looked with toCart := { x.toCart with data0 := arg0 } }
  have hsecond := @ioWrite_run env y (fun c => { c with data1 := arg1 }) h1
  exact (run_bind_eq (ioWrite_run env h0)).trans hsecond

theorem storeArgs_lost {args : UInt32 × UInt32} (h : env.pi x.looks = true ∨ env.pi (x.looks + 1) = true) :
    ((storeArgs env (some args)).run x).1 = false := by
  by_cases h0 : env.pi x.looks = true
  · exact congrArg Prod.fst (run_bind_eq (ioWrite_lost env h0))
  · have h0 : env.pi x.looks = false := by simpa using h0
    let y : Driver := { x.looked with toCart := { x.toCart with data0 := args.1 } }
    have hsecond := @ioWrite_lost env y (fun c => { c with data1 := args.2 }) (h.resolve_left (by simp [h0]))
    have hrun : (storeArgs env (some args)).run x = (false, y.looked) := (run_bind_eq (ioWrite_run env h0)).trans hsecond
    rw [hrun]

theorem setRomWritable_reached (enable : UInt32) (h : Reaches env x) :
    (setRomWritable env enable).run x = (awaitResult env true).run (x.enabling env enable) := by
  rw [setRomWritable, sc64CmdSent, run_bind_eq (storeArgs_run env (h 0 (by omega)) (h 1 (by omega)))]
  let y : Driver :=
    { x with toCart := { x.toCart with data0 := cfgRomWriteEnable, data1 := enable }, looks := x.looks + 2 }
  exact run_bind_eq (ioCommand_run env (x := y) (h 2 (by omega)))

theorem setRomWritable_notSent (enable : UInt32) (h : ¬Reaches env x) :
    ((setRomWritable env enable).run x).1 = .notSent ∧ ((setRomWritable env enable).run x).2.setting = x.setting := by
  by_cases hargs : env.pi x.looks = true ∨ env.pi (x.looks + 1) = true
  · have hlost := @storeArgs_lost env x (cfgRomWriteEnable, enable) hargs
    have hsame := storeArgs_leaves env (some (cfgRomWriteEnable, enable)) x
    cases hstore : (storeArgs env (some (cfgRomWriteEnable, enable))).run x with
    | mk stored y =>
      rw [hstore] at hlost hsame
      obtain rfl : stored = false := hlost
      rw [setRomWritable, sc64CmdSent, run_bind_eq hstore]
      exact ⟨rfl, hsame⟩
  · obtain ⟨h0, h1⟩ := not_or.mp hargs
    have h0 : env.pi x.looks = false := by simpa using h0
    have h1 : env.pi (x.looks + 1) = false := by simpa using h1
    have h2 : env.pi (x.looks + 2) = true := by
      by_contra h2
      refine h fun i hi => ?_
      obtain rfl | rfl | rfl : i = 0 ∨ i = 1 ∨ i = 2 := by omega
      · exact h0
      · exact h1
      · simpa using h2
    let y : Driver :=
      { x with toCart := { x.toCart with data0 := cfgRomWriteEnable, data1 := enable }, looks := x.looks + 2 }
    have hrun : (setRomWritable env enable).run x = (.notSent, y.looked) := by
      rw [setRomWritable, sc64CmdSent, run_bind_eq (storeArgs_run env h0 h1)]
      exact run_bind_eq (ioCommand_lost env (x := y) h2)
    rw [hrun]
    exact ⟨rfl, rfl⟩

theorem Driver.enabling_refused (enable : UInt32) (h : (env.reply x.commands).refused = true) :
    (x.enabling env enable).setting = x.setting := by
  simp [Driver.enabling, Driver.setting, Cart.command, h]

theorem Driver.enabling_taken (enable : UInt32) (h : (env.reply x.commands).refused = false) :
    (x.enabling env enable).setting = (enable, x.romWriteRestore, x.romWriteRestorePending) ∧
      (x.enabling env enable).data1 = x.romWrite := by
  simp [Driver.enabling, Driver.setting, Cart.command, h]

theorem Driver.enabling_reply (enable : UInt32) :
    (x.enabling env enable).busyReads = (env.reply x.commands).busyReads ∧
      (x.enabling env enable).refused = (env.reply x.commands).refused := by
  by_cases h : (env.reply x.commands).refused = true <;> simp [Driver.enabling, Cart.command, h]

/-- A write-enable change by how it went: one that completed reports the setting
it replaced; one that is not known to have completed reached the cart, and was
not heard. -/
theorem setRomWritable_spec (enable : UInt32) (x : Driver) :
    let out := (setRomWritable env enable).run x
    (out.1 = .notSent ∧ out.2.setting = x.setting) ∨
      (out.1 = .unknown ∧ Reaches env x ∧ ¬Heard env x ∧
        (out.2.setting = x.setting ∨ out.2.setting = (enable, x.romWriteRestore, x.romWriteRestorePending))) ∨
      ∃ result0, out.1 = .done result0 x.romWrite ∧ out.2.setting = (enable, x.romWriteRestore, x.romWriteRestorePending) := by
  intro out
  by_cases hreach : Reaches env x
  · refine .inr ?_
    have hrun : out = (awaitResult env true).run (x.enabling env enable) := setRomWritable_reached env enable hreach
    have hspec := awaitResult_spec env (x.enabling env enable)
    have hsame := awaitResult_leaves env true (x.enabling env enable)
    rw [← hrun] at hspec hsame
    have hreply := Driver.enabling_reply env (x := x) enable
    cases hout : out.1 with
    | notSent => exact absurd hout hspec.1
    | unknown =>
      refine .inl ⟨rfl, hreach, fun hheard => ?_, ?_⟩
      · have hlooks : ∀ i < (x.enabling env enable).busyReads + 3, env.pi ((x.enabling env enable).looks + i) = false :=
          fun i hi => hheard.2.2 i (hreply.1 ▸ hi)
        refine awaitResult_heard env (hreply.1 ▸ hheard.1) (hreply.2.trans hheard.2.1) hlooks ?_
        rw [← hrun, hout]
      · rw [hsame]
        by_cases hr : (env.reply x.commands).refused = true
        · exact .inl (Driver.enabling_refused env enable hr)
        · exact .inr (Driver.enabling_taken env enable (by simpa using hr)).1
    | done result0 result1 =>
      obtain ⟨htaken, rfl⟩ := hspec.2 result0 result1 hout
      have hset := Driver.enabling_taken env enable (hreply.2.symm.trans htaken)
      exact .inr ⟨result0, congrArg (Ran.done result0) hset.2, hsame.trans hset.1⟩
  · exact .inl (setRomWritable_notSent env enable hreach)

end Enable

section Restore

variable {A : UInt32 → Prop}

/-- With no restore pending the cart's setting is one of `A`, and a pending one
will make it so. -/
structure Within (A : UInt32 → Prop) (s : Driver) : Prop where
  put : s.romWriteRestorePending = false → A s.romWrite
  pending : s.romWriteRestorePending = true → A s.romWriteRestore

theorem Within.of_setting (h : Within A x) (hsame : y.setting = x.setting) : Within A y := by
  obtain ⟨hw, hrest⟩ := Prod.mk.inj hsame
  obtain ⟨hr, hp⟩ := Prod.mk.inj hrest
  exact ⟨fun hn => hw ▸ h.put (hp ▸ hn), fun hn => hr ▸ h.pending (hp ▸ hn)⟩

theorem Driver.restore_of_setting (hsame : y.setting = x.setting) : y.romWriteRestore = x.romWriteRestore :=
  congrArg (·.2.1) hsame

theorem romWriteRestore_within (hrestore : A x.romWriteRestore) :
    Within A ((romWriteRestore env).run x).2 ∧ ((romWriteRestore env).run x).2.romWriteRestore = x.romWriteRestore := by
  have hspec := setRomWritable_spec env x.romWriteRestore x
  cases hset : (setRomWritable env x.romWriteRestore).run x with
  | mk ran y =>
    simp only [hset] at hspec
    have hrun : (romWriteRestore env).run x = _ := run_bind_eq (m := get) rfl |>.trans (run_bind_eq hset)
    rw [hrun]
    rcases hspec with ⟨rfl, hsame⟩ | ⟨rfl, -, -, hsame⟩ | ⟨result0, rfl, hsame⟩
    · have hr : y.romWriteRestore = x.romWriteRestore := Driver.restore_of_setting hsame
      exact ⟨⟨nofun, fun _ => hr ▸ hrestore⟩, hr⟩
    · have hr : y.romWriteRestore = x.romWriteRestore := by
        rcases hsame with hsame | hsame
        · exact Driver.restore_of_setting hsame
        · exact congrArg (·.2.1) hsame
      exact ⟨⟨nofun, fun _ => hr ▸ hrestore⟩, hr⟩
    · have hw : y.romWrite = x.romWriteRestore := congrArg (·.1) hsame
      exact ⟨⟨fun _ => hw ▸ hrestore, nofun⟩, congrArg (·.2.1) hsame⟩

theorem retryRestore_within (h : Within A x) :
    Within A ((retryRestore env).run x).2 ∧ ((retryRestore env).run x).2.romWriteRestore = x.romWriteRestore := by
  cases hp : x.romWriteRestorePending with
  | false =>
    have hrun : (retryRestore env).run x = ((), x) := by
      show (if x.romWriteRestorePending = true then _ else _ : Agent _).run x = _
      rw [hp]
      rfl
    rw [hrun]
    exact ⟨h, rfl⟩
  | true =>
    have hrun : (retryRestore env).run x = (romWriteRestore env).run x := by
      show (if x.romWriteRestorePending = true then _ else _ : Agent _).run x = _
      rw [hp]
      rfl
    rw [hrun]
    exact romWriteRestore_within (h.pending hp)

/-- All that a poll does to the setting is the retry it begins with. -/
theorem sc64Poll_setting (env : Env) (x : Driver) :
    ((sc64Poll env).run x).2.setting = ((retryRestore env).run x).2.setting := by
  have hstatus : Cmd.usbReadStatus ≠ .configSet := nofun
  refine Leaves.after (fun _ => Leaves.bind (sc64Cmd_leaves env hstatus none true) fun result => ?_) x
  cases result with
  | none => exact .pure _
  | some result =>
    have hread : Cmd.usbRead ≠ .configSet := nofun
    refine .ite (.pure _) (.ite (.pure _) (Leaves.bind (sc64Cmd_leaves env hread _ false) fun read => ?_))
    cases read with
    | none => exact .pure _
    | some read => exact Leaves.bind (awaitUsb_leaves env hstatus _) fun _ => .pure _

theorem readyToWrite_setting (env : Env) (x : Driver) :
    ((readyToWrite env).run x).2.setting = ((retryRestore env).run x).2.setting := by
  have hstatus : Cmd.usbWriteStatus ≠ .configSet := nofun
  refine Leaves.after (fun _ => Leaves.bind (sc64Cmd_leaves env hstatus none true) fun result => ?_) x
  cases result <;> exact .pure _

/-- Staging puts the setting back to one of `A`, if an enable that was not heard
out is one the driver knows what to put back for. -/
theorem stage_within (data : Nat → UInt32) (len : Nat) (h : Within A x)
    (hcut : Reaches env x → ¬Heard env x → A x.romWriteRestore) :
    Within A ((stage env data len).run x).2 ∧ (A x.romWriteRestore → A ((stage env data len).run x).2.romWriteRestore) := by
  have hspec := setRomWritable_spec env 1 x
  cases hset : (setRomWritable env 1).run x with
  | mk ran y =>
    simp only [hset] at hspec
    rw [stage, run_bind_eq hset]
    rcases hspec with ⟨rfl, hsame⟩ | ⟨rfl, hreach, hheard, hsame⟩ | ⟨result0, rfl, hsame⟩
    · exact ⟨h.of_setting hsame, fun ha => (Driver.restore_of_setting hsame).symm ▸ ha⟩
    · have hr : y.romWriteRestore = x.romWriteRestore := by
        rcases hsame with hsame | hsame
        · exact Driver.restore_of_setting hsame
        · exact congrArg (·.2.1) hsame
      have ha : A y.romWriteRestore := hr ▸ hcut hreach hheard
      have hput := @romWriteRestore_within env y A ha
      exact ⟨hput.1, fun _ => hput.2.symm ▸ ha⟩
    · let z : Driver := if y.romWriteRestorePending then y else { y with romWriteRestore := x.romWrite }
      have hp : y.romWriteRestorePending = x.romWriteRestorePending := congrArg (·.2.2) hsame
      have ha : A z.romWriteRestore := by
        cases hpending : x.romWriteRestorePending with
        | false =>
          have hz : z = { y with romWriteRestore := x.romWrite } := if_neg (by simp [hp, hpending])
          rw [hz]
          exact h.put hpending
        | true =>
          have hz : z = y := if_pos (hp.trans hpending)
          have hr : y.romWriteRestore = x.romWriteRestore := congrArg (·.2.1) hsame
          rw [hz, hr]
          exact h.pending hpending
      let w : Driver := ((piCopyToCart env data len).run z).2
      have hcopied : w.romWriteRestore = z.romWriteRestore := Driver.restore_of_setting (storeSpans_leaves env data _ _ 0 z)
      have hput := @romWriteRestore_within env w A (hcopied.symm ▸ ha)
      exact ⟨hput.1, fun _ => hput.2.symm ▸ hcopied.symm ▸ ha⟩

end Restore

section Calls

variable {A : UInt32 → Prop}

/-- The call begins no enable that reaches the cart and is not heard out, or the
driver knows a setting of `A` to put back for it. -/
def Told (env : Env) (A : UInt32 → Prop) (s : Driver) : Call → Prop
  | .poll => True
  | .write _ _ len =>
    let enabling := (readyToWrite env).run s
    A s.romWriteRestore ∨ len = 0 ∨ sc64BufferSize < len ∨ enabling.1 = false ∨ ¬Reaches env enabling.2 ∨ Heard env enabling.2

def ToldRun (env : Env) (A : UInt32 → Prop) : Driver → List Call → Prop
  | _, [] => True
  | s, call :: calls => Told env A s call ∧ ToldRun env A (s.call env call) calls

theorem sc64Write_within (datatype : UInt8) (data : Nat → UInt32) (len : Nat) (h : Within A x)
    (htold : Told env A x (.write datatype data len)) :
    Within A ((sc64Write env datatype data len).run x).2 ∧
      (A x.romWriteRestore → A ((sc64Write env datatype data len).run x).2.romWriteRestore) := by
  by_cases hlen : len = 0 ∨ sc64BufferSize < len
  · rw [sc64Write, if_pos hlen]
    exact ⟨h, id⟩
  · rw [sc64Write, if_neg hlen]
    obtain ⟨hzero, hsize⟩ := not_or.mp hlen
    have hretry := @retryRestore_within env x A h
    have hready := readyToWrite_setting env x
    cases hrun : (readyToWrite env).run x with
    | mk ready y =>
      rw [hrun] at hready
      have hy : Within A y := hretry.1.of_setting hready
      have hr : y.romWriteRestore = x.romWriteRestore := (Driver.restore_of_setting hready).trans hretry.2
      rw [run_bind_eq hrun]
      cases ready with
      | false => exact ⟨hy, fun ha => hr.symm ▸ ha⟩
      | true =>
        have hcut : Reaches env y → ¬Heard env y → A y.romWriteRestore := by
          intro hreach hheard
          simp only [Told, hrun] at htold
          rcases htold with ha | hz | hs | hn | hn | hh
          · exact hr ▸ ha
          · exact absurd hz hzero
          · exact absurd hs hsize
          · exact absurd hn nofun
          · exact absurd hreach hn
          · exact absurd hh hheard
        have hstage := stage_within data len hy hcut
        have hafter : ((sc64Write env datatype data len).run x).2.setting = ((stage env data len).run y).2.setting := by
          rw [sc64Write, if_neg hlen, run_bind_eq hrun]
          have hwrite : Cmd.usbWrite ≠ .configSet := nofun
          have hstatus : Cmd.usbWriteStatus ≠ .configSet := nofun
          refine Leaves.after (fun staged => .ite (Leaves.bind (readBack_leaves env data len) fun same => .ite ?_ (.pure _)) (.pure _)) y
          refine Leaves.bind (sc64Cmd_leaves env hwrite _ false) fun sent => ?_
          cases sent with
          | none => exact .pure _
          | some sent => exact awaitUsb_leaves env hstatus _
        rw [sc64Write, if_neg hlen, run_bind_eq hrun] at hafter
        exact ⟨hstage.1.of_setting hafter, fun ha => (Driver.restore_of_setting hafter).symm ▸ hstage.2 (hr.symm ▸ ha)⟩

theorem call_within (call : Call) (h : Within A x) (htold : Told env A x call) :
    Within A (x.call env call) ∧ (A x.romWriteRestore → A (x.call env call).romWriteRestore) := by
  cases call with
  | poll =>
    have hretry := @retryRestore_within env x A h
    have hsame := sc64Poll_setting env x
    exact ⟨hretry.1.of_setting hsame, fun ha => ((Driver.restore_of_setting hsame).trans hretry.2).symm ▸ ha⟩
  | write datatype data len => exact sc64Write_within datatype data len h htold

theorem run_within (calls : List Call) (h : Within A x) (htold : ToldRun env A x calls) : Within A (x.run env calls) := by
  induction calls generalizing x with
  | nil => exact h
  | cons call calls ih => exact ih (call_within call h htold.1).1 htold.2

/-- Where the driver's record is already one of `A`, every call is told. -/
theorem toldRun_of_restore (calls : List Call) (h : Within A x) (ha : A x.romWriteRestore) : ToldRun env A x calls := by
  induction calls generalizing x with
  | nil => trivial
  | cons call calls ih =>
    have htold : Told env A x call := by
      cases call with
      | poll => trivial
      | write datatype data len => exact .inl ha
    have hcall := call_within call h htold
    exact ⟨htold, ih hcall.1 (hcall.2 ha)⟩

/-- Over every schedule and every list of calls: a write-enable the cart did not
have before is never left on with no restore pending, and with none pending the
setting is the one the cart had, where each enable that reached the cart before
the driver knew that setting was heard out. -/
theorem write_enable_put_back (env : Env) (cart : Cart) (calls : List Call) :
    let s := (Driver.start cart).run env calls
    (s.romWrite ≠ 0 → s.romWrite ≠ cart.romWrite → s.romWriteRestorePending = true) ∧
      (ToldRun env (· = cart.romWrite) (.start cart) calls → s.romWriteRestorePending = false → s.romWrite = cart.romWrite) := by
  intro s
  have hknown : Within (· = cart.romWrite) (Driver.start cart) := ⟨fun _ => rfl, nofun⟩
  refine ⟨fun hon hother => ?_, fun htold => (run_within calls hknown htold).put⟩
  have hstart : Within (fun w => w = cart.romWrite ∨ w = 0) (Driver.start cart) := ⟨fun _ => .inl rfl, nofun⟩
  have hs : Within (fun w => w = cart.romWrite ∨ w = 0) s := run_within calls hstart (toldRun_of_restore calls hstart (.inr rfl))
  by_contra hpending
  rcases hs.put (by simpa using hpending) with hw | hw
  · exact hother hw
  · exact hon hw

private def writable : Cart where
  data0 := 0
  data1 := 0
  romWrite := 1
  busyReads := 0
  refused := false
  buffer := fun _ => 0

/-- The cart answers at once and the bus is free, but for one look. -/
private def freeBut (look : Nat) : Env where
  pi n := n == look
  reply _ := ⟨0, false, 0, 0, fun _ => 0⟩

private def greeting : Call := .write 1 (fun i => UInt32.ofNat i) 24

/-- Here the restore is what fails, on a cart that was writable before: the next
poll puts it back. -/
theorem write_enable_put_back_writable :
    let s := (Driver.start writable).run (freeBut 20) [greeting, .poll]
    ((Driver.start writable).call (freeBut 20) greeting).romWriteRestorePending = true ∧
      s.romWriteRestorePending = false ∧ s.romWrite = 1 := by
  intro s
  have hheard : Heard (freeBut 20) ((readyToWrite (freeBut 20)).run (.start writable)).2 :=
    ⟨by decide +kernel, rfl, by decide +kernel⟩
  have htold : ToldRun (freeBut 20) (· = writable.romWrite) (.start writable) [greeting, .poll] :=
    ⟨.inr (.inr (.inr (.inr (.inr hheard)))), trivial, trivial⟩
  have hpending : s.romWriteRestorePending = false := by decide +kernel
  exact ⟨by decide +kernel, hpending, (write_enable_put_back (freeBut 20) writable [greeting, .poll]).2 htold hpending⟩

/-- The enable runs, and the bus is taken when the driver looks for its end: a
write-enable the agent did not set is switched off for good. -/
theorem writable_switched_off :
    let s := (Driver.start writable).run (freeBut 7) [greeting]
    writable.romWrite = 1 ∧ s.romWriteRestorePending = false ∧ s.romWrite = 0 := by
  decide +kernel

end Calls

end Sc64Driver

end Multi64
