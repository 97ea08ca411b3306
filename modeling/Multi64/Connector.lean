import Multi64.Lib.Bytes
import Multi64.Lib.Effect

/-! The host of the game connectors, `lib.rs` of `ap64-connector`: a script
answers each line of a client and reaches the cart through `ap64`. The cart, and
what it answers, may be any. -/

namespace Multi64

namespace Connector

inductive CartError where
  | invalidInput (why : String)
  | linkRestarted (why : String)
  | other (why : String)
  deriving DecidableEq

def CartError.text : CartError → String
  | .invalidInput why | .linkRestarted why | .other why => why

/-- Each request also says how often the link restarted under it. -/
structure Cart (σ : Type) where
  readMany : List (Nat × Nat) → σ → Except CartError (List Bytes) × σ × Nat
  writeMany : List (Nat × Bytes) → σ → Except CartError Unit × σ × Nat
  readRomMany : List (Nat × Nat) → σ → Except CartError (List Bytes) × σ × Nat
  takeWatched : σ → Option Bytes × σ

/-- A write as a script has it: an integer of Lua and the bytes. -/
abbrev Write := Int × Bytes

/-- The script's own state, and what `ap64` reaches. `made` are the writes the
line at hand has made, and `sent` those put to the cart; the code keeps neither. -/
structure Host (σ S : Type) where
  cart : σ
  generation : Nat
  batch : Nat
  fatal : Option String
  script : S
  made : List Write
  sent : List Write

abbrev Lua (σ S α : Type) : Type := Eff String (Host σ S) α

section Api

variable {σ S α : Type} (c : Cart σ)

/-- An integer as a `u32` is taken from Lua. -/
def u32 (n : Int) : Except String Nat :=
  if 0 ≤ n ∧ n < 2 ^ 32 then .ok n.toNat else .error "error converting Lua integer to u32 (out of range)"

/-- What a request to the cart came to. A failure of the cart is remembered as
well as raised. -/
def asked (r : Except CartError α × σ × Nat) : Lua σ S α := fun h =>
  let h := { h with cart := r.2.1, generation := h.generation + r.2.2 }
  match r.1 with
  | .ok a => (.ok a, h)
  | .error (.other why) => (.error why, { h with fatal := h.fatal.or (some why) })
  | .error e => (.error e.text, h)

def regionsOf (list : List (Int × Nat)) : Except String (List (Nat × Nat)) :=
  list.mapM fun r => (u32 r.1).map fun a => (a, r.2)

def readMany (list : List (Int × Nat)) : Lua σ S (List Bytes) := fun h =>
  match regionsOf list with
  | .error why => (.error why, h)
  | .ok regions => asked (c.readMany regions h.cart) h

def romReadMany (list : List (Int × Nat)) : Lua σ S (List Bytes) := fun h =>
  match regionsOf list with
  | .error why => (.error why, h)
  | .ok regions => asked (c.readRomMany regions h.cart) h

/-- What a line decided to write came from the console before a restart. -/
def writeMany (list : List Write) : Lua σ S Unit := fun h =>
  match list.mapM fun w => (u32 w.1).map fun a => (a, w.2) with
  | .error why => (.error why, h)
  | .ok writes =>
    if h.generation ≠ h.batch then
      (.error ("the cart link restarted during this request, so its writes were not " ++
        "sent: the console may have been reset since it was read"), h)
    else asked (c.writeMany writes h.cart) { h with sent := h.sent ++ list }

def takeWatched : Lua σ S (Option Bytes) := fun h =>
  let r := c.takeWatched h.cart
  (.ok r.1, { h with cart := r.2 })

def script : Lua σ S S := fun h => (.ok h.script, h)

def update (f : S → S) : Lua σ S Unit := Eff.modify fun h => { h with script := f h.script }

/-- A write is made. -/
def note (w : Write) : Lua σ S Unit := Eff.modify fun h => { h with made := h.made ++ [w] }

/-- The writes of a queue sent together, and the queue emptied before. -/
def flushQueue (queue : S → List Write) (clear : S → S) : Lua σ S Unit := do
  let batch := queue (← script)
  if batch ≠ [] then
    update clear
    writeMany c batch

end Api

/-- A connector's script. `pending` are its writes not yet sent. -/
structure Script (σ S L R : Type) where
  id : String
  fresh : S
  load : Lua σ S Unit
  handle : L → Lua σ S R
  pending : S → List Write

inductive Unanswered where
  | fatal (why : String)
  | line (why : String)
  deriving DecidableEq

def Unanswered.isFatal : Unanswered → Bool
  | .fatal _ => true
  | .line _ => false

structure Session (σ S : Type) where
  host : Host σ S
  loadedAt : Nat

section Handle

variable {σ S L R : Type} (script : Script σ S L R)

/-- The script as loaded afresh. One that does not load leaves the old. -/
def load (h : Host σ S) : Except String Unit × Host σ S :=
  let loaded := script.load { h with script := script.fresh }
  match loaded.2.fatal, loaded.1 with
  | some why, _ => (.error why, { loaded.2 with fatal := none, script := h.script })
  | none, .error why => (.error ("loading the " ++ script.id ++ " connector: " ++ why), { loaded.2 with script := h.script })
  | none, .ok () => (.ok (), loaded.2)

/-- A session with the script as first loaded. -/
def connect (cart : σ) (generation : Nat) : Except String Unit × Session σ S :=
  let r := load script ⟨cart, generation, generation, none, script.fresh, [], []⟩
  (r.1, ⟨r.2, generation⟩)

/-- What a line came to, and a failure of the cart under it. -/
def answered (r : Except String R × Host σ S) : Except Unanswered R × Host σ S :=
  match r.2.fatal, r.1 with
  | some why, _ => (.error (.fatal why), { r.2 with fatal := none })
  | none, .error why => (.error (.line ("connector: " ++ why)), r.2)
  | none, .ok reply => (.ok reply, r.2)

/-- The host as a line is given to the script. -/
def begin_ (generation : Nat) (h : Host σ S) : Host σ S := { h with batch := generation }

/-- The script a line is given to, loaded again if the link restarted. -/
def ready (s : Session σ S) : Except String Unit × Host σ S :=
  let h := { s.host with made := [], sent := [] }
  if h.generation ≠ s.loadedAt then load script h else (.ok (), h)

def handle (line : L) (s : Session σ S) : Except Unanswered R × Session σ S :=
  match ready script s with
  | (.error why, h) => (.error (.fatal why), { s with host := h })
  | (.ok (), h) =>
    let r := answered (script.handle line (begin_ s.host.generation h))
    (r.1, { host := r.2, loadedAt := s.host.generation })

/-- The lines in turn, up to one that ends the session: what each came to and
how it left the session. -/
def handleAll : List L → Session σ S → List (Except Unanswered R × Session σ S)
  | [], _ => []
  | line :: lines, s =>
    let r := handle script line s
    match r.1 with
    | .error (.fatal _) => [r]
    | _ => r :: handleAll lines r.2

/-- What is put to the cart under a line is what the line made, or nothing where
it fails; and unless it ends the session it leaves nothing to be sent. -/
structure Own (r : Except Unanswered R × Session σ S) : Prop where
  sent : r.2.host.sent = r.2.host.made ∨ r.2.host.sent = [] ∧ r.1.isOk = false
  left : (∀ why, r.1 ≠ .error (.fatal why)) → script.pending r.2.host.script = []

end Handle

end Connector

end Multi64
