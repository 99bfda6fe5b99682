import ClaimQueue.Simulation.World

/-! How the world answers: `begin` when something is asked, and `resume` for one that waits. Looking
at a wait that is not over changes nothing. -/

namespace ClaimQueue

namespace Simulation

/-- An answer, or a wait for one. -/
inductive Begun (α : Type) where
  | now (a : α)
  | held (h : Hold)

def Begun.map {α β : Type} (f : α → β) : Begun α → Begun β
  | .now a => .now (f a)
  | .held h => .held h

namespace World

def access (a : Access) (w : World) : a.Answer × World :=
  let (r, queue) := a.perform w.policy w.clock w.queue
  (r, { w with queue })

def beginAttend (due : Span) (w : World) : Begun Bool × World :=
  let (number, w) := w.number
  let (passes, bell) := w.bell.register number
  if passes then (.now true, { w with bell })
  else if w.isDue due then (.now false, { w with bell := bell.leave number })
  else (.held ⟨number, some (mark due)⟩, { w with bell })

def isOver (h : Hold) (w : World) : Bool :=
  match h.due with
  | some t => decide (t ≤ w.time)
  | none => false

def resumeAttend (h : Hold) (w : World) : Option Bool × World :=
  match w.bell.resume? h.number with
  | some bell => (some true, { w with bell })
  | none =>
    if w.isOver h then (some false, { w with bell := w.bell.leave h.number }) else (none, w)

/-- Over with `yes` as soon as `ended` holds, and with `no` when the time has come. -/
def beginWait {α : Type} (due : Span) (ended : Bool) (yes no : α) (w : World) : Begun α × World :=
  if ended then (.now yes, w)
  else if w.isDue due then (.now no, w)
  else
    let (number, w) := w.number
    (.held ⟨number, some (mark due)⟩, w)

def resumeWait {α : Type} (h : Hold) (ended : Bool) (yes no : α) (w : World) : Option α × World :=
  if ended then (some yes, w) else if w.isOver h then (some no, w) else (none, w)

def beginStep (w : World) : (s : LocalQueue.Step) → Begun s.Answer × World
  | .access a => let (r, w) := w.access a; (.now r, w)
  | .clock => (.now w.clock, w)
  | .elapsed => (.now w.elapsed, w)
  | .ring => (.now (), { w with bell := w.bell.ring })
  | .announce => (.now (), { w with announced := w.announced + 1 })
  | .announced => (.now w.announced, w)
  | .attend due => w.beginAttend due
  | .attendResult seen due => w.beginWait due (w.announced != seen) true false

def resumeStep (w : World) (h : Hold) : (s : LocalQueue.Step) → Option s.Answer × World
  | .attend _ => w.resumeAttend h
  | .attendResult seen _ => w.resumeWait h (w.announced != seen) true false
  | _ => (none, w)

/-- Gives up a wait: a wake-up that came meanwhile goes to the next. -/
def quit (w : World) (h : Hold) : LocalQueue.Step → World
  | .attend _ => { w with bell := w.bell.leave h.number }
  | _ => w

def stopped (w : World) (signal : Signal) : Bool :=
  w.given.contains signal || w.abandoned.contains signal

/-- Whether all launched workers have ended. -/
def idle (w : World) : Bool :=
  match w.launcher with
  | some l => !l.members.any w.alive.contains
  | none => true

def halted (w : World) : World :=
  match w.launcher with
  | some l => { w with given := l.signal :: w.given }
  | none => w

def disbanded (w : World) : World :=
  match w.launcher with
  | some l => { w with launcher := some { l with members := [] } }
  | none => w

def haltMessage : String := "launcher is shutting down"

/-- `rounds` is for the run of a launched worker. -/
def answerLauncher (rounds : Nat) (w : World) : (c : LauncherCall) → c.Answer × World
  | .launch => match w.launcher with
    | none => (.error (.quota haltMessage), w)
    | some l =>
      if w.given.contains l.signal then (.error (.quota haltMessage), w)
      else
        let script : Script Unit := do
          let _ ← workerRun rounds l.signal l.template
          return ()
        let (number, w) := w.start script
        let launched := l.launched + 1
        (.ok ("worker-" ++ toString launched),
          { w with launcher := some { l with launched, members := l.members ++ [number] } })
  | .live => match w.launcher with
    | none => (0, w)
    | some l => ((l.members.filter w.alive.contains).length, w)

def beginLabour (work : Labour) (w : World) : Begun Outcome × World :=
  let (number, w) := w.start (ask (.pause work.takes))
  (.held ⟨number, none⟩, w)

def enlist (script : Script Unit) (w : World) : World := (w.start script).2

def begin (rounds : Nat) (w : World) : (q : Request) → Begun q.Answer × World
  | .step s => w.beginStep s
  | .heeding _ s => let (r, w) := w.beginStep s; (r.map some, w)
  | .pause s => w.beginWait ⟨w.elapsed.nanos + s.nanos⟩ false () ()
  | .labour work => w.beginLabour work
  | .newSignal => let (number, w) := w.number; (.now number, w)
  | .given signal => (.now (w.given.contains signal), w)
  | .give signal => (.now (), { w with given := signal :: w.given })
  | .abandon signal => (.now (), { w with abandoned := signal :: w.abandoned })
  | .later after signal abandoned =>
    (.now (), w.enlist do
      ask (.pause after)
      if abandoned then ask (.abandon signal) else ask (.give signal))
  | .until signal due => w.beginWait due (w.stopped signal) false true
  | .setClock t => (.now (), { w with clock := t })
  | .launcher c => let (r, w) := w.answerLauncher rounds c; (.now r, w)
  | .halt => (.now (), w.halted)
  | .join =>
    let w := w.halted
    if w.idle then (.now (), w.disbanded)
    else
      let (number, w) := w.number
      (.held ⟨number, none⟩, w)

def resume (w : World) (h : Hold) : (q : Request) → Option q.Answer × World
  | .step s => w.resumeStep h s
  | .heeding signal s =>
    if w.given.contains signal then (some none, w.quit h s)
    else
      let (r, w) := w.resumeStep h s
      (r.map some, w)
  | .pause _ => w.resumeWait h false () ()
  | .labour work => if w.alive.contains h.number then (none, w) else (some work.outcome, w)
  | .until signal _ => w.resumeWait h (w.stopped signal) false true
  | .join => if w.idle then (some (), w.disbanded) else (none, w)
  | _ => (none, w)

end World

end Simulation

end ClaimQueue
