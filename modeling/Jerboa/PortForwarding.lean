import Jerboa.TransitionSystem
import Mathlib.Data.List.Infix

/-!
# Forwarded connections

`proxyConn` copies between a client and the guest with one loop for each
direction, and a loop that ends closes both connections.  A client that shuts
down its sending side ends the loop towards the guest, and loses what is left of
the reply when that loop closes the connections.
-/

namespace Jerboa.Forwarder

inductive CopyPc
  | read
  | write (chunk : List UInt8)
  | closeClient
  | closeBackend
  | done
deriving DecidableEq, Repr

/-- One direction: the bytes of the sender that the loop has not read, be they
sent or not, and those that have come to the receiver. -/
structure Flow where
  unread : List UInt8
  pc : CopyPc
  got : List UInt8
deriving DecidableEq

/-- A turn of `io.Copy` for up to `n` bytes; `ended` says that the sender has
sent everything and closed. -/
def Flow.copy (f : Flow) (srcClosed dstClosed ended : Bool) (n : Nat) : Option Flow :=
  match f.pc with
  | .read =>
    if srcClosed then some { f with pc := .closeClient }
    else if f.unread = [] then if ended then some { f with pc := .closeClient } else none
    else some { f with pc := .write (f.unread.take n), unread := f.unread.drop n }
  | .write chunk =>
    if dstClosed then some { f with pc := .closeClient }
    else
      let rest := chunk.drop n
      some { f with
        pc := if rest = [] then .read else .write rest
        got := f.got ++ chunk.take n }
  | _ => none

structure Conn where
  up : Flow
  down : Flow
  shutdown : Bool
  guestClosed : Bool
  clientClosed : Bool
  backendClosed : Bool
deriving DecidableEq

inductive Label
  | shutdown
  | guestClose
  | copyUp (n : Nat)
  | copyDown (n : Nat)
  | closeUp
  | closeDown
deriving DecidableEq, Repr

def Conn.close (c : Conn) : CopyPc → Option (CopyPc × Conn)
  | .closeClient => some (.closeBackend, { c with clientClosed := true })
  | .closeBackend => some (.done, { c with backendClosed := true })
  | _ => none

/-- The guest closes when it has received all of `a` and sent its reply. -/
def Conn.step (a : List UInt8) (c : Conn) : Label → Option Conn
  | .shutdown => some { c with shutdown := true }
  | .guestClose => if c.up.got = a then some { c with guestClosed := true } else none
  | .copyUp n =>
    (c.up.copy c.clientClosed c.backendClosed c.shutdown n).map fun f => { c with up := f }
  | .copyDown n =>
    (c.down.copy c.backendClosed c.clientClosed c.guestClosed n).map fun f => { c with down := f }
  | .closeUp => (c.close c.up.pc).map fun r => { r.2 with up := { c.up with pc := r.1 } }
  | .closeDown => (c.close c.down.pc).map fun r => { r.2 with down := { c.down with pc := r.1 } }

def Conn.start (a b : List UInt8) : Conn where
  up := ⟨a, .read, []⟩
  down := ⟨b, .read, []⟩
  shutdown := false
  guestClosed := false
  clientClosed := false
  backendClosed := false

def system (a b : List UInt8) : TransitionSystem Conn Label where
  initial c := c = .start a b
  step := Conn.step a

def Conn.Over (c : Conn) : Prop :=
  c.up.pc = .done ∧ c.down.pc = .done

instance (c : Conn) : Decidable c.Over :=
  inferInstanceAs (Decidable (_ ∧ _))

/-- What the loop has yet to pass on; once it has returned, it passes on nothing. -/
def Flow.left (f : Flow) : List UInt8 :=
  match f.pc with
  | .read => f.unread
  | .write chunk => chunk ++ f.unread
  | _ => []

/-- The loop towards the guest closes the connections only when the other loop
has nothing left to pass on. -/
def closesWhenIdle (c : Conn) (label : Label) : Prop :=
  label = .closeUp → c.down.left = []

instance (c : Conn) (label : Label) : Decidable (closesWhenIdle c label) :=
  inferInstanceAs (Decidable (_ → _))

/-! ### One direction -/

def CopyPc.copying : CopyPc → Bool
  | .read | .write _ => true
  | _ => false

variable {f g : Flow} {a b : List UInt8} {c target : Conn}

theorem Flow.left_of_ended (ended : f.pc.copying = false) : f.left = [] := by
  unfold Flow.left
  cases pc : f.pc <;> simp_all [CopyPc.copying]

/-- A turn loses nothing unless a connection is closed, passes on nothing to a
closed one, and ends the loop only if one is closed or the sender has ended. -/
theorem Flow.copy_spec {srcClosed dstClosed ended : Bool} {n : Nat} :
    f.copy srcClosed dstClosed ended n = some g →
      ((srcClosed = true ∨ dstClosed = true → f.left = []) → g.got ++ g.left = f.got ++ f.left) ∧
        (f.left = [] → g.left = []) ∧ (dstClosed = true → g.got = f.got) ∧
        (g.pc.copying = true ∨ srcClosed = true ∨ dstClosed = true ∨ ended = true) := by
  cases at_ : f.pc with
  | read =>
    simp only [Flow.copy, at_]
    split
    · rename_i closed
      rintro ⟨⟩
      simp +contextual [Flow.left, at_, closed]
    · split
      · rename_i empty
        split
        · rename_i isEnded
          rintro ⟨⟩
          simp [Flow.left, at_, empty, isEnded]
        · nofun
      · rintro ⟨⟩
        simp +contextual [Flow.left, at_, CopyPc.copying]
  | write chunk =>
    simp only [Flow.copy, at_]
    split
    · rename_i closed
      rintro ⟨⟩
      simp +contextual [Flow.left, at_, closed]
    · rename_i isOpen
      rintro ⟨⟩
      have split : chunk.take n ++ chunk.drop n = chunk := List.take_append_drop n chunk
      by_cases empty : chunk.drop n = []
      · rw [empty, List.append_nil] at split
        simp +contextual [Flow.left, at_, isOpen, empty, split, CopyPc.copying]
      · have whole : chunk.take n ++ (chunk.drop n ++ f.unread) = chunk ++ f.unread := by
          rw [← List.append_assoc, split]
        simp +contextual [Flow.left, at_, isOpen, empty, whole, CopyPc.copying]
  | closeClient | closeBackend | done => simp [Flow.copy, at_]

theorem Conn.close_spec {pc : CopyPc} {r : CopyPc × Conn} :
    c.close pc = some r → pc.copying = false ∧ r.1.copying = false ∧ r.2.up = c.up ∧
      r.2.down = c.down ∧ (pc = .closeClient ∨ c.clientClosed = true → r.2.clientClosed = true) := by
  cases pc <;> rintro ⟨⟩ <;> simp [CopyPc.copying]

/-! ### The request -/

/-- Nothing of the request is lost, and nothing is closed before the guest has it
all. -/
structure Conn.Requests (a : List UInt8) (c : Conn) : Prop where
  up : c.up.got ++ c.up.left = a
  guest : c.guestClosed = true → c.up.left = []
  downEnds : c.down.pc.copying = false → c.up.left = []
  closed : c.clientClosed = true ∨ c.backendClosed = true → c.up.left = []

theorem Conn.Requests.step (requests : c.Requests a) {label : Label}
    (stepped : c.step a label = some target) : target.Requests a := by
  cases label with
  | shutdown =>
    cases stepped
    exact { requests with }
  | guestClose =>
    obtain ⟨all, same⟩ := Option.ite_none_right_eq_some.mp stepped
    cases same
    exact { requests with guest := fun _ => List.append_right_eq_self.mp (all ▸ requests.up) }
  | copyUp n =>
    obtain ⟨f, copied, rfl⟩ := Option.map_eq_some_iff.mp stepped
    obtain ⟨keeps, none, -⟩ := Flow.copy_spec copied
    exact ⟨(keeps requests.closed).trans requests.up, none ∘ requests.guest,
      none ∘ requests.downEnds, none ∘ requests.closed⟩
  | copyDown n =>
    obtain ⟨f, copied, rfl⟩ := Option.map_eq_some_iff.mp stepped
    obtain ⟨-, -, -, ends⟩ := Flow.copy_spec copied
    refine { requests with downEnds := fun ended => ?_ }
    rcases ends with copying | closed | closed | closed
    · cases ended.symm.trans copying
    · exact requests.closed (.inr closed)
    · exact requests.closed (.inl closed)
    · exact requests.guest closed
  | closeUp =>
    obtain ⟨r, closed, rfl⟩ := Option.map_eq_some_iff.mp stepped
    obtain ⟨ended, stays, -⟩ := Conn.close_spec closed
    have none : { c.up with pc := r.1 }.left = [] := Flow.left_of_ended stays
    have all := requests.up
    rw [Flow.left_of_ended ended, ← none] at all
    exact ⟨all, fun _ => none, fun _ => none, fun _ => none⟩
  | closeDown =>
    obtain ⟨r, closed, rfl⟩ := Option.map_eq_some_iff.mp stepped
    obtain ⟨ended, -, up, -⟩ := Conn.close_spec closed
    have none : r.2.up.left = [] := up ▸ requests.downEnds ended
    exact ⟨up ▸ requests.up, fun _ => none, fun _ => none, fun _ => none⟩

theorem requests_of_reachable (reached : (system a b).Reachable c) : c.Requests a := by
  refine reached.invariant ?_ fun _ _ _ requests stepped => requests.step stepped
  rintro _ rfl
  constructor <;> simp [Conn.start, Flow.left, CopyPc.copying]

/-- In every run, whenever the guest replies and the client shuts down, the
request comes to the guest in order, and no connection is closed and no loop ends
before all of it is there. -/
theorem request_whole (a b : List UInt8) {c : Conn} (reached : (system a b).Reachable c) :
    c.up.got <+: a ∧ (c.clientClosed = true ∨ c.backendClosed = true ∨
      c.up.pc.copying = false ∨ c.down.pc.copying = false → c.up.got = a) := by
  have requests := requests_of_reachable reached
  have all (none : c.up.left = []) : c.up.got = a := by
    rw [← requests.up, none, List.append_nil]
  constructor
  · exact ⟨_, requests.up⟩
  · rintro (closed | closed | ended | ended)
    · exact all (requests.closed (.inl closed))
    · exact all (requests.closed (.inr closed))
    · exact all (Flow.left_of_ended ended)
    · exact all (requests.downEnds ended)

/-- The client shuts down its sending side before the guest has replied. -/
def shutdownThenReply : List Label :=
  [.copyUp 1, .copyUp 1, .shutdown, .copyUp 1, .closeUp, .closeUp, .copyDown 1, .closeDown,
    .closeDown]

theorem request_whole_shutdown :
    ∃ c, (system [1] [2]).run (.start [1] [2]) shutdownThenReply = some c ∧
      c.clientClosed = true ∧ c.up.got = [1] := by
  have ends : ((system [1] [2]).run (.start [1] [2]) shutdownThenReply).map (·.clientClosed) =
      some true := by
    decide
  obtain ⟨c, ran, closed⟩ := Option.map_eq_some_iff.mp ends
  exact ⟨c, ran, closed, (request_whole [1] [2] (.run (.start rfl) ran)).2 (.inl closed)⟩

/-! ### The reply -/

structure Conn.Replies (b : List UInt8) (c : Conn) : Prop where
  down : c.down.got ++ c.down.left = b
  closed : c.clientClosed = true ∨ c.backendClosed = true → c.down.left = []

theorem Conn.Replies.step (replies : c.Replies b) {label : Label} (allowed : closesWhenIdle c label)
    (stepped : c.step a label = some target) : target.Replies b := by
  cases label with
  | shutdown =>
    cases stepped
    exact { replies with }
  | guestClose =>
    obtain ⟨-, same⟩ := Option.ite_none_right_eq_some.mp stepped
    cases same
    exact { replies with }
  | copyUp n =>
    obtain ⟨f, -, rfl⟩ := Option.map_eq_some_iff.mp stepped
    exact { replies with }
  | copyDown n =>
    obtain ⟨f, copied, rfl⟩ := Option.map_eq_some_iff.mp stepped
    obtain ⟨keeps, none, -⟩ := Flow.copy_spec copied
    exact ⟨(keeps (replies.closed ∘ Or.symm)).trans replies.down, none ∘ replies.closed⟩
  | closeUp =>
    obtain ⟨r, closed, rfl⟩ := Option.map_eq_some_iff.mp stepped
    obtain ⟨-, -, -, down, -⟩ := Conn.close_spec closed
    exact ⟨down ▸ replies.down, fun _ => down ▸ allowed rfl⟩
  | closeDown =>
    obtain ⟨r, closed, rfl⟩ := Option.map_eq_some_iff.mp stepped
    obtain ⟨ended, stays, -⟩ := Conn.close_spec closed
    have none : { c.down with pc := r.1 }.left = [] := Flow.left_of_ended stays
    have all := replies.down
    rw [Flow.left_of_ended ended, ← none] at all
    exact ⟨all, fun _ => none⟩

/-- Once the connection to the client is closed, nothing more comes to it. -/
theorem got_of_clientClosed {labels : List Label} (ran : (system a b).run c labels = some target)
    (closed : c.clientClosed = true) : target.down.got = c.down.got := by
  induction labels generalizing c with
  | nil =>
    cases ran
    rfl
  | cons label labels ih =>
    obtain ⟨middle, stepped, rest⟩ := Option.bind_eq_some_iff.mp ran
    suffices kept : middle.clientClosed = true ∧ middle.down.got = c.down.got by
      exact (ih rest kept.1).trans kept.2
    cases label with
    | shutdown =>
      cases stepped
      exact ⟨closed, rfl⟩
    | guestClose =>
      obtain ⟨-, same⟩ := Option.ite_none_right_eq_some.mp stepped
      cases same
      exact ⟨closed, rfl⟩
    | copyUp n =>
      obtain ⟨f, -, rfl⟩ := Option.map_eq_some_iff.mp stepped
      exact ⟨closed, rfl⟩
    | copyDown n =>
      obtain ⟨f, copied, rfl⟩ := Option.map_eq_some_iff.mp stepped
      exact ⟨closed, (Flow.copy_spec copied).2.2.1 closed⟩
    | closeUp =>
      obtain ⟨r, isClosed, rfl⟩ := Option.map_eq_some_iff.mp stepped
      obtain ⟨-, -, -, down, client⟩ := Conn.close_spec isClosed
      exact ⟨client (.inr closed), congrArg Flow.got down⟩
    | closeDown =>
      obtain ⟨r, isClosed, rfl⟩ := Option.map_eq_some_iff.mp stepped
      exact ⟨(Conn.close_spec isClosed).2.2.2.2 (.inr closed), rfl⟩

/-- As long as the loop towards the guest closes the connections only when the
other loop has nothing left to pass on, both ends have received everything when
the loops have ended.  When it closes that to the client earlier, the client
never gets the whole reply. -/
theorem forwarded_whole (a b : List UInt8) {c : Conn}
    (reached : (system a b).ReachableUnder closesWhenIdle c) :
    (c.Over → c.up.got = a ∧ c.down.got = b) ∧
      (c.up.pc = .closeClient → c.down.left ≠ [] → ∀ labels later,
        (system a b).run c (.closeUp :: labels) = some later → later.down.got ≠ b) := by
  have requests := requests_of_reachable (reached.mono fun _ _ _ => trivial)
  have replies : c.Replies b := by
    refine reached.invariant ?_ fun _ _ _ _ replies allowed stepped => replies.step allowed stepped
    rintro _ rfl
    constructor <;> simp [Conn.start, Flow.left]
  constructor
  · rintro ⟨upEnded, downEnded⟩
    have noUp : c.up.left = [] := Flow.left_of_ended (by rw [upEnded]; rfl)
    have noDown : c.down.left = [] := Flow.left_of_ended (by rw [downEnded]; rfl)
    rw [← requests.up, ← replies.down, noUp, noDown]
    simp
  · intro closing more labels later ran whole
    obtain ⟨middle, stepped, rest⟩ := Option.bind_eq_some_iff.mp ran
    obtain ⟨r, isClosed, rfl⟩ := Option.map_eq_some_iff.mp stepped
    obtain ⟨-, -, -, down, client⟩ := Conn.close_spec isClosed
    have kept := got_of_clientClosed rest (client (.inl closing))
    have all := replies.down
    rw [← whole, kept] at all
    change c.down.got ++ c.down.left = r.2.down.got at all
    rw [down] at all
    exact more (List.append_right_eq_self.mp all)

def replyThenShutdown : List Label :=
  [.copyUp 1, .copyUp 1, .copyDown 1, .copyDown 1, .shutdown, .copyUp 1, .closeUp, .closeUp,
    .copyDown 1, .closeDown, .closeDown]

theorem forwarded_whole_reply :
    ∃ c, (system [1] [2]).runUnder closesWhenIdle (.start [1] [2]) replyThenShutdown =
        some c ∧ c.Over ∧ c.up.got = [1] ∧ c.down.got = [2] := by
  have ends : ((system [1] [2]).runUnder closesWhenIdle (.start [1] [2])
      replyThenShutdown).map (fun c => decide c.Over) = some true := by
    decide
  obtain ⟨c, ran, ended⟩ := Option.map_eq_some_iff.mp ends
  rw [decide_eq_true_eq] at ended
  exact ⟨c, ran, ended, (forwarded_whole [1] [2] (.run (.start rfl) ran)).1 ended⟩

theorem reply_lost_after_shutdown :
    ∃ c, (system [1] [2]).Reachable c ∧ c.Over ∧ c.up.got = [1] ∧ c.down.got = [] := by
  have ends : ((system [1] [2]).run (.start [1] [2]) shutdownThenReply).map
      (fun c => (decide c.Over, c.up.got, c.down.got)) = some (true, [1], []) := by
    decide
  obtain ⟨c, ran, facts⟩ := Option.map_eq_some_iff.mp ends
  simp only [Prod.mk.injEq, decide_eq_true_eq] at facts
  exact ⟨c, .run (.start rfl) ran, facts⟩

end Jerboa.Forwarder
