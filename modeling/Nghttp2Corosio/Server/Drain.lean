import Nghttp2Corosio.Server.Tasks
import Nghttp2Corosio.Runs.Machine
import Mathlib.Data.Prod.Lex
import Mathlib.Order.WellFounded

/-!
Structured shutdown.

`~Impl()` requests a stop and then runs the `io_context` until `TaskGroup::count()`
is 0. That the count comes down to 0, and that nothing is left then, is the matter
of this module.

`World` is an `io_context` with its `TaskGroup` and everything that was spawned into
it: the `accept_loop` of the server, sessions of both roles and request handlers. The
calls of `Client::connect` that are under way are not spawned into the group, but
each may still spawn a session when the stop has been requested.

`Task.rank` is where the loop in `~Impl()` gets its end from. Once the token is
stopped, no coroutine can be suspended again. So what counts most, next to the kind
of the coroutine, is how many of its operations are suspended: each of them may
bring in anything when it is resumed, but only once. Next is what the transport
has ready, and last the way to the next operation.
-/

namespace Nghttp2Corosio

open Async Buffers Runs

/-! ### The group -/

/-- There is no room in memory for as many coroutines as a `size_t` can count, so
`++count_` does not wrap around. -/
structure TaskGroup where
  count : ℕ := 0
  stopRequested : Bool := false
  deriving DecidableEq, Repr

def TaskGroup.spawn (g : TaskGroup) : TaskGroup := { g with count := g.count + 1 }

/-- `--count_` on a `size_t`, which both handlers that `spawn` passes to `run_async`
consist of. -/
def TaskGroup.completed (g : TaskGroup) : TaskGroup :=
  { g with count := if g.count = 0 then 2 ^ 64 - 1 else g.count - 1 }

def TaskGroup.requestStop (g : TaskGroup) : TaskGroup := { g with stopRequested := true }

/-! ### The context -/

structure World where
  tls : Bool
  /-- `start()` has been called. -/
  started : Bool := false
  group : TaskGroup := {}
  /-- What has been spawned and has not completed. -/
  coroutines : List Task := []
  /-- The calls of `Client::connect` that have not returned. -/
  connecting : ℕ := 0
  deriving DecidableEq, Repr

inductive WorldAction
  | start (acceptor : ℕ)
  | connect
  | connected (output input : ℕ)
  | connectFailed
  | requestStop
  | turn (i : ℕ) (act : TaskAction)
  deriving DecidableEq, Repr

/-- What an observer of the group counts. -/
inductive WorldLabel
  | spawned
  | completed
  deriving DecidableEq, Repr

/-- `TaskGroup::spawn`. The coroutine may run at once, and to its end: nothing else
has to happen before its turns. -/
def World.spawn (w : World) (t : Task) : World :=
  { w with group := w.group.spawn, coroutines := w.coroutines ++ [t] }

/-- The coroutine at `i` takes its turn. However it ends, one of the two handlers
runs. -/
def World.turn (w : World) (i : ℕ) (turn : Turn Task) : World × List WorldLabel :=
  let coroutines := turn.on i w.coroutines
  match turn with
  | .goes _ => ({ w with coroutines := coroutines }, [])
  | .spawns _ _ => ({ w with coroutines := coroutines, group := w.group.spawn }, [.spawned])
  | .returns | .throws =>
      ({ w with coroutines := coroutines, group := w.group.completed }, [.completed])

/-- While the server is destroyed, nobody begins to connect. -/
def World.step (w : World) : WorldAction → Option (World × List WorldLabel)
  | .start acceptor =>
      if w.started || w.group.stopRequested then none
      else some ({ w with started := true }.spawn
        (.acceptLoop { acceptor := ⟨false, acceptor⟩ }), [.spawned])
  | .connect =>
      if w.group.stopRequested then none
      else some ({ w with connecting := w.connecting + 1 }, [])
  | .connected output input =>
      if w.connecting = 0 then none
      else some ({ w with connecting := w.connecting - 1 }.spawn
        (.session { role := .client, output := ⟨false, output⟩, input := ⟨false, input⟩ }),
        [.spawned])
  | .connectFailed =>
      if w.connecting = 0 then none
      else some ({ w with connecting := w.connecting - 1 }, [])
  | .requestStop =>
      if w.group.stopRequested then none
      else some ({ w with group := w.group.requestStop }, [])
  | .turn i act =>
      match w.coroutines[i]? with
      | none => none
      | some t => (t.step w.tls w.group.stopRequested act).map (w.turn i)

def worldMachine : Machine World WorldAction WorldLabel where
  init w := ∃ tls, w = { tls := tls }
  step := World.step

/-- The scheduler runs one stretch of a coroutine. -/
def World.Scheduled (w w' : World) : Prop := ∃ act os, w.step act = some (w', os)

def spawned (tr : List WorldLabel) : ℕ := tr.count .spawned

def completed (tr : List WorldLabel) : ℕ := tr.count .completed

/-! ### The count -/

/-- `count_` is the number of coroutines that were spawned and have not completed. -/
structure World.Counted (tr : List WorldLabel) (w : World) : Prop where
  count : w.group.count = w.coroutines.length
  trace : w.group.count + completed tr = spawned tr

theorem spawned_append (tr os : List WorldLabel) : spawned (tr ++ os) = spawned tr + spawned os :=
  List.count_append

theorem completed_append (tr os : List WorldLabel) :
    completed (tr ++ os) = completed tr + completed os :=
  List.count_append

theorem World.Counted.spawn {w : World} {tr : List WorldLabel} (h : w.Counted tr) (t : Task) :
    (w.spawn t).Counted (tr ++ [.spawned]) where
  count := by simp [World.spawn, TaskGroup.spawn, h.count]
  trace := by
    have htrace := h.trace
    rw [spawned_append, completed_append, ← htrace]
    simp only [World.spawn, TaskGroup.spawn, spawned, completed, List.count_singleton]
    simp only [beq_iff_eq, reduceCtorEq, if_false, if_true]
    omega

theorem World.turn_count (w : World) (i : ℕ) (turn : Turn Task)
    (h : turn.ends = true → 0 < w.group.count) :
    (w.turn i turn).1.group.count + turn.ends.toNat = w.group.count + turn.spawned ∧
      spawned (w.turn i turn).2 = turn.spawned ∧
      completed (w.turn i turn).2 = turn.ends.toNat := by
  have hcompleted : 0 < w.group.count → w.group.completed.count + 1 = w.group.count := by
    intro hpos
    rw [TaskGroup.completed, if_neg (by omega)]
    exact Nat.sub_add_cancel hpos
  cases turn with
  | goes t => exact ⟨rfl, rfl, rfl⟩
  | spawns t child => exact ⟨rfl, rfl, rfl⟩
  | returns => exact ⟨hcompleted (h rfl), rfl, rfl⟩
  | throws => exact ⟨hcompleted (h rfl), rfl, rfl⟩

@[simp] theorem World.turn_coroutines (w : World) (i : ℕ) (turn : Turn Task) :
    (w.turn i turn).1.coroutines = turn.on i w.coroutines := by
  cases turn <;> rfl

@[simp] theorem World.turn_connecting (w : World) (i : ℕ) (turn : Turn Task) :
    (w.turn i turn).1.connecting = w.connecting := by
  cases turn <;> rfl

@[simp] theorem World.turn_stopRequested (w : World) (i : ℕ) (turn : Turn Task) :
    (w.turn i turn).1.group.stopRequested = w.group.stopRequested := by
  cases turn <;> rfl

theorem World.step_turn {w w' : World} {i : ℕ} {act : TaskAction} {os : List WorldLabel}
    (h : w.step (.turn i act) = some (w', os)) :
    ∃ t turn, w.coroutines[i]? = some t ∧
      t.step w.tls w.group.stopRequested act = some turn ∧ w.turn i turn = (w', os) := by
  simp only [World.step] at h
  split at h
  · cases h
  · rename_i t hget
    obtain ⟨turn, hturn, heq⟩ := Option.map_eq_some_iff.mp h
    exact ⟨t, turn, hget, hturn, heq⟩

theorem World.Counted.pos {w : World} {tr : List WorldLabel} (h : w.Counted tr) {i : ℕ} {t : Task}
    (hget : w.coroutines[i]? = some t) : 0 < w.group.count := by
  rw [h.count]
  obtain ⟨hlt, -⟩ := List.getElem?_eq_some_iff.mp hget
  omega

theorem World.Counted.turn {w : World} {tr : List WorldLabel} (h : w.Counted tr) {i : ℕ}
    {t : Task} (hget : w.coroutines[i]? = some t) (turn : Turn Task) :
    (w.turn i turn).1.Counted (tr ++ (w.turn i turn).2) := by
  obtain ⟨hcount, hspawned, hcompleted⟩ := w.turn_count i turn fun _ => h.pos hget
  have hlength := turn.length_on hget
  refine ⟨?_, ?_⟩
  · have := h.count
    rw [World.turn_coroutines]
    omega
  · have := h.trace
    rw [spawned_append, completed_append, hspawned, hcompleted]
    omega

theorem World.Counted.step {w w' : World} {tr os : List WorldLabel} {act : WorldAction}
    (h : w.Counted tr) (hs : w.step act = some (w', os)) : w'.Counted (tr ++ os) := by
  cases act with
  | start acceptor =>
      simp only [World.step] at hs
      split at hs
      · cases hs
      · cases hs
        exact World.Counted.spawn (w := { w with started := true }) ⟨h.count, h.trace⟩ _
  | connect =>
      simp only [World.step] at hs
      split at hs
      · cases hs
      · cases hs
        rw [List.append_nil]
        exact ⟨h.count, h.trace⟩
  | connected output input =>
      simp only [World.step] at hs
      split at hs
      · cases hs
      · cases hs
        exact World.Counted.spawn (w := { w with connecting := w.connecting - 1 })
          ⟨h.count, h.trace⟩ _
  | connectFailed =>
      simp only [World.step] at hs
      split at hs
      · cases hs
      · cases hs
        rw [List.append_nil]
        exact ⟨h.count, h.trace⟩
  | requestStop =>
      simp only [World.step] at hs
      split at hs
      · cases hs
      · cases hs
        rw [List.append_nil]
        exact ⟨h.count, h.trace⟩
  | turn i act =>
      obtain ⟨t, turn, hget, -, heq⟩ := World.step_turn hs
      have hturn := h.turn hget turn
      rwa [heq] at hturn

theorem World.Counted.completed_pos {w w' : World} {tr os : List WorldLabel} {act : WorldAction}
    (h : w.Counted tr) (hs : w.step act = some (w', os)) (hos : .completed ∈ os) :
    0 < w.group.count := by
  cases act with
  | turn i act =>
      obtain ⟨t, turn, hget, -, -⟩ := World.step_turn hs
      exact h.pos hget
  | _ =>
      simp only [World.step] at hs
      split at hs
      · cases hs
      · cases hs
        simp at hos

theorem World.counted_run {tr : List WorldLabel} {w : World}
    (run : worldMachine.Run anyStep tr w) : w.Counted tr := by
  refine run.invariant (I := fun tr w => w.Counted tr) ?_ fun _ _ _ _ _ h _ hs => h.step hs
  rintro w ⟨tls, rfl⟩
  exact ⟨rfl, rfl⟩

/-! ### Ranks -/

/-- The kind of a coroutine, its suspended operations, what can succeed without
suspending, and the way that is left to the next operation. -/
abbrev Rank : Type := ℕ ×ₗ ℕ ×ₗ ℕ ×ₗ ℕ

def Rank.of (kind suspended ready left : ℕ) : Rank :=
  toLex (kind, toLex (suspended, toLex (ready, left)))

theorem Rank.of_lt_of_kind {k k' : ℕ} (h : k' < k) (s r l s' r' l' : ℕ) :
    Rank.of k' s' r' l' < Rank.of k s r l :=
  Prod.Lex.toLex_lt_toLex.mpr (.inl h)

theorem Rank.of_lt_iff {k s r l s' r' l' : ℕ} :
    Rank.of k s' r' l' < Rank.of k s r l ↔
      s' < s ∨ s' = s ∧ (r' < r ∨ r' = r ∧ l' < l) := by
  simp [Rank.of, Prod.Lex.toLex_lt_toLex]

def AcceptPc.suspended : AcceptPc → ℕ
  | .handshake tls => tls.suspended.toNat
  | _ => 0

def AcceptPc.left : AcceptPc → ℕ
  | .done => 0
  | .accept => 1
  | .spawn => 2
  | .handshake _ => 3

def sendLeft : Option SendLoop → ℕ
  | some (.running pending) => 2 + (pendingCapacity - pending.length)
  | some (.writing _) => 1
  | _ => 0

def recvLeft (requests : ℕ) : Option RecvLoop → ℕ
  | some .starting => 2
  | some .receiving => 2 + requests
  | some .reading => 1
  | _ => 0

def HandlerPc.left : HandlerPc → ℕ
  | .echo .start => 7
  | .echo .submitEager => 6
  | .echo (.read _) => 5
  | .echo (.submit _) => 4
  | .echo (.write _) => 3
  | .echo .submitLate | .submit => 2
  | .echo .writeEof | .writeEof => 1
  | .echo (.done _) | .done => 0

def SessionRun.suspended (s : SessionRun) : ℕ :=
  (decide (s.send = some .waiting)).toNat + s.output.suspended.toNat + s.input.suspended.toNat

def Task.rank : Task → Rank
  | .acceptLoop l =>
      .of 2 (l.acceptor.suspended.toNat + l.pc.suspended) l.acceptor.ready l.pc.left
  | .session s =>
      .of 1 s.suspended (s.output.ready + s.input.ready)
        ((!s.started).toNat + sendLeft s.send + recvLeft s.requests s.recv)
  | .handler h => .of 0 h.suspended.toNat 0 h.pc.left

def connectRank : Rank := .of 3 0 0 0

/-- What decreases while the group is drained. -/
def World.measure (w : World) : Multiset Rank :=
  Multiset.replicate w.connecting connectRank + (w.coroutines : Multiset Task).map Task.rank

/-- An operation under a stopped token, to which it is all the same what it would
have brought in. -/
theorem Await.reply_stopped {a a' : Await} {more : ℕ} {reply : Reply}
    (h : a.reply true more reply = some a') :
    reply ≠ .suspends ∧ a'.suspended = false ∧ (reply = .fails ∧ a'.ready = a.ready ∨
      reply = .succeeds ∧ (a.suspended = true ∨ a'.ready < a.ready)) := by
  cases reply with
  | suspends => cases h
  | fails =>
      cases h
      exact ⟨nofun, rfl, .inl ⟨rfl, rfl⟩⟩
  | succeeds =>
      simp only [Await.reply, Bool.not_true, Bool.or_false] at h
      split at h
      · rename_i hsuspended
        cases h
        exact ⟨nofun, rfl, .inr ⟨rfl, .inl hsuspended⟩⟩
      · split at h
        · cases h
        · cases h
          exact ⟨nofun, rfl, .inr ⟨rfl, .inr (Nat.sub_lt (by omega) Nat.one_pos)⟩⟩

theorem AcceptPc.accepted_suspended (tls : Bool) (transport : Await) (reply : Reply) :
    (AcceptPc.accepted tls true { transport with suspended := false } reply).suspended = 0 := by
  cases reply with
  | suspends => rfl
  | fails => rfl
  | succeeds => cases tls <;> rfl

theorem AcceptPc.shaken_left (transport : Await) (h2 : Bool) {reply : Reply}
    (hreply : reply ≠ .suspends) :
    (AcceptPc.shaken transport h2 reply).suspended = 0 ∧
      (AcceptPc.shaken transport h2 reply).left < 3 := by
  cases reply with
  | suspends => exact absurd rfl hreply
  | fails => exact ⟨rfl, Nat.one_lt_succ_succ 1⟩
  | succeeds =>
      cases h2 with
      | false => exact ⟨rfl, Nat.one_lt_succ_succ 1⟩
      | true => exact ⟨rfl, Nat.lt_succ_self 2⟩

theorem AcceptLoop.step_lt {l l' : AcceptLoop} {tls : Bool} {act : AcceptAction}
    (h : l.step tls true act = some l') :
    (Task.acceptLoop l').rank < (Task.acceptLoop l).rank := by
  refine Rank.of_lt_iff.mpr ?_
  cases act with
  | accept reply more transport =>
      simp only [AcceptLoop.step] at h
      split at h
      · rename_i hpc
        obtain ⟨acceptor, hreply, rfl⟩ := Option.map_eq_some_iff.mp h
        obtain ⟨-, hs, hcases⟩ := Await.reply_stopped hreply
        dsimp only
        rw [AcceptPc.accepted_suspended, hpc, hs, show AcceptPc.accept.suspended = 0 from rfl,
          Bool.toNat_false]
        rcases hcases with ⟨rfl, hready⟩ | ⟨-, hsuspended | hready⟩
        · have hleft : (AcceptPc.accepted tls true { transport with suspended := false }
              .fails).left < AcceptPc.accept.left := Nat.one_pos
          omega
        · rw [hsuspended]
          exact .inl Nat.one_pos
        · omega
      · cases h
  | handshake reply h2 =>
      simp only [AcceptLoop.step] at h
      split at h
      · rename_i transport hpc
        obtain ⟨transport', hreply, rfl⟩ := Option.map_eq_some_iff.mp h
        obtain ⟨hs, hleft⟩ := AcceptPc.shaken_left transport' h2 (Await.reply_stopped hreply).1
        dsimp only
        rw [hs, hpc, show (AcceptPc.handshake transport).left = 3 from rfl]
        omega
      · cases h

/-- A round of `send_loop` that does not sleep gets closer to the next operation. -/
theorem SendLoop.round_left (pending : Bytes) (data : Option Bytes) (wants : Bool) :
    SendLoop.round pending data wants false ≠ .waiting ∧
      sendLeft (some (.round pending data wants false)) < sendLeft (some (.running pending)) := by
  unfold SendLoop.round
  cases data with
  | none => exact ⟨nofun, Nat.add_pos_left Nat.two_pos _⟩
  | some data =>
      dsimp only
      split
      · refine ⟨nofun, ?_⟩
        simp only [sendLeft, List.length_append]
        omega
      · split
        · refine ⟨nofun, ?_⟩
          simp only [sendLeft]
          omega
        · cases wants with
          | false => exact ⟨nofun, Nat.add_pos_left Nat.two_pos _⟩
          | true => exact ⟨nofun, Nat.add_pos_left Nat.two_pos _⟩

theorem RecvLoop.head_left (requests : ℕ) (wants : Bool) :
    recvLeft requests (some (.head wants)) < 2 := by
  cases wants with
  | false => exact Nat.two_pos
  | true => exact Nat.one_lt_two

/-- The decrease in the rank of a session, in terms of the parts of the rank. -/
theorem SessionRun.rank_lt {s s' : SessionRun}
    (h : s'.suspended < s.suspended ∨ s'.suspended ≤ s.suspended ∧
      (s'.output.ready + s'.input.ready < s.output.ready + s.input.ready ∨
        s'.output.ready + s'.input.ready = s.output.ready + s.input.ready ∧
          (!s'.started).toNat + sendLeft s'.send + recvLeft s'.requests s'.recv <
            (!s.started).toNat + sendLeft s.send + recvLeft s.requests s.recv)) :
    (Task.session s').rank < (Task.session s).rank := by
  refine Rank.of_lt_iff.mpr ?_
  omega

theorem SessionRun.loop_lt {s s' : SessionRun} {act : RunAction}
    (h : s.loop true act = some s') : (Task.session s').rank < (Task.session s).rank := by
  refine SessionRun.rank_lt ?_
  unfold SessionRun.suspended
  cases act with
  | start => cases h
  | memSend data wants sleeps =>
      simp only [SessionRun.loop] at h
      split at h
      · rename_i pending hsend
        cases sleeps with
        | true => cases h
        | false =>
            cases h
            obtain ⟨hwaiting, hleft⟩ := SendLoop.round_left pending data wants
            simp only [hsend, Option.some.injEq, hwaiting, decide_false, reduceCtorEq, true_and]
            omega
      · cases h
  | write reply more =>
      simp only [SessionRun.loop] at h
      split at h
      · rename_i bytes hsend
        obtain ⟨output, hreply, rfl⟩ := Option.map_eq_some_iff.mp h
        obtain ⟨-, hs, ⟨rfl, hready⟩ | ⟨rfl, hready⟩⟩ := Await.reply_stopped hreply
        · simp only [hsend, hs, hready, SendLoop.wrote, sendLeft, Option.some.injEq, reduceCtorEq,
            decide_false, Bool.toNat_false, true_and]
          omega
        · simp only [hsend, hs, SendLoop.wrote, Option.some.injEq, reduceCtorEq, decide_false,
            Bool.toNat_false]
          rcases hready with hsuspended | hready
          · rw [hsuspended, Bool.toNat_true]
            omega
          · omega
      · cases h
  | wake canceled =>
      simp only [SessionRun.loop] at h
      split at h
      · rename_i hsend
        cases h
        have hwoken : some (if canceled = true then SendLoop.ended .canceled else .running []) ≠
            some .waiting := by
          cases canceled <;> nofun
        refine .inl ?_
        simp only [hsend, hwoken, decide_false, decide_true, Bool.toNat_false, Bool.toNat_true]
        omega
      · cases h
  | startRecv wants =>
      simp only [SessionRun.loop] at h
      split at h
      · rename_i hrecv
        cases h
        have hleft := RecvLoop.head_left s.requests wants
        have hstart : recvLeft s.requests s.recv = 2 := by rw [hrecv]; rfl
        dsimp only
        omega
      · cases h
  | read reply more requests =>
      simp only [SessionRun.loop] at h
      split at h
      · rename_i hrecv
        obtain ⟨input, hreply, rfl⟩ := Option.map_eq_some_iff.mp h
        obtain ⟨-, hs, ⟨rfl, hready⟩ | ⟨rfl, hready⟩⟩ := Await.reply_stopped hreply
        · simp only [hrecv.1, hs, hready, RecvLoop.wasRead, recvLeft, Bool.toNat_false,
            true_and]
          omega
        · simp only [hs, Bool.toNat_false]
          rcases hready with hsuspended | hready
          · rw [hsuspended, Bool.toNat_true]
            omega
          · omega
      · cases h
  | memRecv failed wants =>
      simp only [SessionRun.loop] at h
      split at h
      · rename_i hrecv
        cases h
        have hleft :
            recvLeft 0 (some (if failed = true then RecvLoop.ended else .head wants)) < 2 := by
          cases failed with
          | false => exact RecvLoop.head_left 0 wants
          | true => exact Nat.two_pos
        have hreceiving : recvLeft s.requests s.recv = 2 + s.requests := by rw [hrecv]; rfl
        dsimp only
        omega
      · cases h
  | throwSend =>
      simp only [SessionRun.loop] at h
      split at h
      · cases h
      · cases h
      · rename_i hnone hended
        cases h
        have hmoving : 0 < (decide (s.send = some .waiting)).toNat + sendLeft s.send := by
          cases hsend : s.send with
          | none => exact absurd hsend hnone
          | some loop =>
              cases loop with
              | running pending => exact Nat.add_pos_right _ (Nat.add_pos_left Nat.two_pos _)
              | writing bytes => exact Nat.one_pos
              | waiting => exact Nat.one_pos
              | ended why => exact absurd hsend (hended why)
        have hover : sendLeft none = 0 := rfl
        simp only [reduceCtorEq, decide_false, Bool.toNat_false, true_and]
        omega
  | throwRecv =>
      simp only [SessionRun.loop] at h
      split at h
      · cases h
      · cases h
      · rename_i hnone hended
        cases h
        have hmoving : 0 < recvLeft s.requests s.recv := by
          cases hrecv : s.recv with
          | none => exact absurd hrecv hnone
          | some loop =>
              cases loop with
              | starting => exact Nat.two_pos
              | reading => exact Nat.one_pos
              | receiving => exact Nat.add_pos_left Nat.two_pos _
              | ended => exact absurd hrecv hended
        have hover : recvLeft s.requests none = 0 := rfl
        simp only [Bool.toNat_false, true_and]
        omega

theorem SessionRun.step_lt {s s' : SessionRun} {act : RunAction}
    (h : s.step true act = some s') : (Task.session s').rank < (Task.session s).rank := by
  cases act with
  | start =>
      simp only [SessionRun.step] at h
      split at h
      · cases h
      · rename_i hstarted
        cases h
        refine SessionRun.rank_lt (.inr ⟨le_rfl, .inr ⟨rfl, ?_⟩⟩)
        rw [Bool.not_eq_true] at hstarted
        simp only [hstarted, Bool.not_true, Bool.not_false, Bool.toNat_false, Bool.toNat_true]
        omega
  | _ =>
      simp only [SessionRun.step] at h
      split at h
      · exact SessionRun.loop_lt h
      · cases h

/-- A handler goes on with an operation that was suspended, or gets closer to its
end. -/
theorem HandleRequest.rank_lt {h h' : HandleRequest} (hidle : h'.suspended = false)
    (hleft : h.suspended = true ∨ h'.pc.left < h.pc.left) :
    (Task.handler h').rank < (Task.handler h).rank := by
  refine Rank.of_lt_iff.mpr ?_
  rw [hidle, Bool.toNat_false]
  rcases hleft with hsuspended | hleft
  · rw [hsuspended]
    exact .inl Nat.one_pos
  · omega

theorem EchoPc.enter_left (eager : Bool) :
    (HandlerPc.echo (.enter eager)).left < (HandlerPc.echo .start).left := by
  cases eager <;> simp [EchoPc.enter, HandlerPc.left]

theorem EchoPc.leave_left (submitted : Bool) : (HandlerPc.echo (.leave submitted)).left < 3 := by
  cases submitted <;> simp [EchoPc.leave, HandlerPc.left]

theorem EchoPc.readReturned_left (submitted : Bool) (res : ReadResult) :
    (HandlerPc.echo (.readReturned submitted res)).left < 5 := by
  unfold EchoPc.readReturned
  split
  · exact (EchoPc.leave_left submitted).trans (by omega)
  · cases submitted <;> simp [HandlerPc.left]

theorem EchoPc.writeReturned_left (err : Error) :
    (HandlerPc.echo (.writeReturned (some err))).left < 3 :=
  EchoPc.leave_left true

theorem HandleRequest.step_lt {h h' : HandleRequest} {act : HandlerAction}
    (hs : h.step true act = some h') : (Task.handler h').rank < (Task.handler h).rank := by
  cases act with
  | begin eager =>
      simp only [HandleRequest.step] at hs
      split at hs
      · rename_i hpc
        cases hs
        refine HandleRequest.rank_lt rfl (.inr ?_)
        rw [hpc]
        exact EchoPc.enter_left eager
      · cases hs
  | submitted ec =>
      have hsubmit : h'.suspended = false ∧ h'.pc.left < h.pc.left := by
        simp only [HandleRequest.step] at hs
        split at hs
        all_goals cases hs
        all_goals rename_i hpc; rw [hpc]
        all_goals cases ec <;> simp [EchoPc.submitReturned, HandlerPc.left]
      exact HandleRequest.rank_lt hsubmit.1 (.inr hsubmit.2)
  | suspend => cases hs
  | readReturned res =>
      simp only [HandleRequest.step] at hs
      split at hs
      · rename_i submitted hpc
        cases hs
        refine HandleRequest.rank_lt rfl (.inr ?_)
        rw [hpc]
        exact EchoPc.readReturned_left submitted res
      · cases hs
  | writeReturned ec =>
      simp only [HandleRequest.step] at hs
      split at hs
      · rename_i bytes hpc
        split at hs
        · cases hs
        · rename_i hwrite
          cases hs
          refine HandleRequest.rank_lt rfl ?_
          cases ec with
          | none => exact .inl (by simpa using hwrite)
          | some err =>
              rw [hpc]
              exact .inr (EchoPc.writeReturned_left err)
      · rename_i hpc
        cases hs
        refine HandleRequest.rank_lt rfl (.inr ?_)
        rw [hpc]
        exact Nat.one_pos
      · rename_i hpc
        cases hs
        refine HandleRequest.rank_lt rfl (.inr ?_)
        rw [hpc]
        exact Nat.one_pos
      · cases hs

/-- Under a stopped token, whatever a coroutine leaves behind ranks below it. -/
theorem Task.step_lt {t : Task} {tls : Bool} {act : TaskAction} {turn : Turn Task}
    (h : t.step tls true act = some turn) : ∀ t' ∈ turn.tasks, t'.rank < t.rank := by
  have hends {turn' : Turn Task} {p : Prop} [Decidable p] (hturn : turn'.tasks = [])
      (h : (if p then some turn' else none) = some turn) : ∀ t' ∈ turn.tasks, t'.rank < t.rank := by
    split at h
    · cases h
      rw [hturn]
      exact fun t' ht' => absurd ht' List.not_mem_nil
    · cases h
  cases act with
  | accept act =>
      cases t with
      | acceptLoop l =>
          obtain ⟨l', hstep, rfl⟩ := Option.map_eq_some_iff.mp h
          exact List.forall_mem_singleton.mpr (AcceptLoop.step_lt hstep)
      | _ => cases h
  | spawnSession output input =>
      cases t with
      | acceptLoop l =>
          simp only [Task.step] at h
          split at h
          · rename_i hpc
            cases h
            refine List.forall_mem_cons.mpr ⟨?_, List.forall_mem_singleton.mpr ?_⟩
            · refine Rank.of_lt_iff.mpr (.inr ⟨?_, .inr ⟨rfl, ?_⟩⟩)
              · simp only [hpc, AcceptPc.suspended]
              · simp only [hpc, AcceptPc.left]
                omega
            · exact Rank.of_lt_of_kind Nat.one_lt_two ..
          · cases h
      | _ => cases h
  | session act =>
      cases t with
      | session s =>
          obtain ⟨s', hstep, rfl⟩ := Option.map_eq_some_iff.mp h
          exact List.forall_mem_singleton.mpr (SessionRun.step_lt hstep)
      | _ => cases h
  | dispatch handled =>
      cases t with
      | session s =>
          simp only [Task.step] at h
          split at h
          · rename_i hrecv
            cases h
            refine List.forall_mem_cons.mpr ⟨?_, List.forall_mem_singleton.mpr ?_⟩
            · refine SessionRun.rank_lt (.inr ⟨le_rfl, .inr ⟨rfl, ?_⟩⟩)
              simp only [hrecv.1, recvLeft]
              omega
            · exact Rank.of_lt_of_kind Nat.one_pos ..
          · cases h
      | _ => cases h
  | handler act =>
      cases t with
      | handler r =>
          obtain ⟨r', hstep, rfl⟩ := Option.map_eq_some_iff.mp h
          exact List.forall_mem_singleton.mpr (HandleRequest.step_lt hstep)
      | _ => cases h
  | returns => cases t <;> exact hends rfl h
  | throws => cases t <;> exact hends rfl h
  | rethrows =>
      cases t with
      | session s => exact hends rfl h
      | _ => cases h

/-! ### Every coroutine can go on

An operation that is suspended is resumed, and one that is started under a stopped
token returns. So there is always a next step, and it need not be an exception. -/

theorem AcceptLoop.goes_on (l : AcceptLoop) (tls : Bool) :
    ∃ act, act.raises = false ∧ ((Task.acceptLoop l).step tls true act).isSome = true := by
  cases hpc : l.pc with
  | accept =>
      refine ⟨.accept (.accept .fails 0 {}), rfl, ?_⟩
      simp [Task.step, AcceptLoop.step, hpc, Await.reply]
  | handshake transport =>
      refine ⟨.accept (.handshake .fails false), rfl, ?_⟩
      simp [Task.step, AcceptLoop.step, hpc, Await.reply]
  | spawn =>
      refine ⟨.spawnSession 0 0, rfl, ?_⟩
      simp [Task.step, hpc]
  | done =>
      refine ⟨.returns, rfl, ?_⟩
      simp [Task.step, Task.mayReturn, hpc]

theorem SessionRun.send_goes_on {s : SessionRun} {loop : SendLoop} (hsend : s.send = some loop)
    (hover : ∀ why, loop ≠ .ended why) :
    ∃ act, (TaskAction.session act).raises = false ∧ act ≠ .start ∧
      (s.loop true act).isSome = true := by
  cases loop with
  | running pending =>
      exact ⟨.memSend none false false, rfl, nofun, by simp [SessionRun.loop, hsend]⟩
  | writing bytes =>
      exact ⟨.write .fails 0, rfl, nofun, by simp [SessionRun.loop, hsend, Await.reply]⟩
  | waiting => exact ⟨.wake true, rfl, nofun, by simp [SessionRun.loop, hsend]⟩
  | ended why => exact absurd rfl (hover why)

theorem SessionRun.recv_goes_on {s : SessionRun} {loop : RecvLoop} (hrecv : s.recv = some loop)
    (hover : loop ≠ .ended) :
    ∃ act, (TaskAction.session act).raises = false ∧ act ≠ .start ∧
      (s.loop true act).isSome = true := by
  cases loop with
  | starting => exact ⟨.startRecv false, rfl, nofun, by simp [SessionRun.loop, hrecv]⟩
  | reading => exact ⟨.read .fails 0 0, rfl, nofun, by simp [SessionRun.loop, hrecv, Await.reply]⟩
  | receiving => exact ⟨.memRecv true false, rfl, nofun, by simp [SessionRun.loop, hrecv]⟩
  | ended => exact absurd rfl hover

theorem SessionRun.loop_goes_on {s : SessionRun} (hstarted : s.started = true)
    (hjoined : s.joined = false) :
    ∃ act, (TaskAction.session act).raises = false ∧ act ≠ .start ∧
      (s.loop true act).isSome = true := by
  simp only [SessionRun.joined, hstarted, Bool.true_and, Bool.and_eq_false_iff] at hjoined
  rcases hjoined with hopen | hopen
  · cases hsend : s.send with
    | none => simp [hsend] at hopen
    | some loop =>
        refine SessionRun.send_goes_on hsend fun why hover => ?_
        simp [hsend, hover] at hopen
  · cases hrecv : s.recv with
    | none => simp [hrecv] at hopen
    | some loop =>
        refine SessionRun.recv_goes_on hrecv fun hover => ?_
        simp [hrecv, hover] at hopen

theorem SessionRun.step_of_loop {s : SessionRun} {stopped : Bool} {act : RunAction}
    (hstarted : s.started = true) (hact : act ≠ .start) :
    s.step stopped act = s.loop stopped act := by
  cases act with
  | start => exact absurd rfl hact
  | _ => simp only [SessionRun.step, hstarted, if_true]

theorem SessionRun.goes_on (s : SessionRun) (tls : Bool) :
    ∃ act, act.raises = false ∧ ((Task.session s).step tls true act).isSome = true := by
  by_cases hstarted : s.started = true
  · by_cases hjoined : s.joined = true
    · by_cases hthrew : (s.send.isNone || s.recv.isNone) = true
      · refine ⟨.rethrows, rfl, ?_⟩
        simp only [Task.step, hjoined, hthrew, Bool.and_self, if_true, Option.isSome_some]
      · refine ⟨.returns, rfl, ?_⟩
        simp only [Bool.or_eq_true, not_or, Option.isNone_iff_eq_none, ← ne_eq,
          Option.ne_none_iff_isSome] at hthrew
        simp only [Task.step, Task.mayReturn, hjoined, hthrew.1, hthrew.2, Bool.and_self, if_true,
          Option.isSome_some]
    · rw [Bool.not_eq_true] at hjoined
      obtain ⟨act, hraises, hact, hloop⟩ := SessionRun.loop_goes_on hstarted hjoined
      refine ⟨.session act, hraises, ?_⟩
      rwa [Task.step, SessionRun.step_of_loop hstarted hact, Option.isSome_map]
  · refine ⟨.session .start, rfl, ?_⟩
    simp [Task.step, SessionRun.step, hstarted]

theorem HandleRequest.goes_on (h : HandleRequest) (tls : Bool) :
    ∃ act, act.raises = false ∧ ((Task.handler h).step tls true act).isSome = true := by
  have hstep (act : HandlerAction) (hs : (h.step true act).isSome = true) :
      ∃ act, act.raises = false ∧ ((Task.handler h).step tls true act).isSome = true := by
    refine ⟨.handler act, rfl, ?_⟩
    rwa [Task.step, Option.isSome_map]
  have hdone (hpc : h.pc.isDone = true) :
      ∃ act, act.raises = false ∧ ((Task.handler h).step tls true act).isSome = true :=
    ⟨.returns, rfl, by simp [Task.step, Task.mayReturn, hpc]⟩
  cases hpc : h.pc with
  | echo pc =>
      cases pc with
      | start => exact hstep (.begin false) (by simp [HandleRequest.step, hpc])
      | submitEager => exact hstep (.submitted none) (by simp [HandleRequest.step, hpc])
      | read submitted =>
          exact hstep (.readReturned ⟨some .canceled, []⟩) (by simp [HandleRequest.step, hpc])
      | submit bytes => exact hstep (.submitted none) (by simp [HandleRequest.step, hpc])
      | write bytes =>
          exact hstep (.writeReturned (some .canceled)) (by simp [HandleRequest.step, hpc])
      | submitLate => exact hstep (.submitted none) (by simp [HandleRequest.step, hpc])
      | writeEof =>
          exact hstep (.writeReturned (some .canceled)) (by simp [HandleRequest.step, hpc])
      | done ec => exact hdone (by rw [hpc]; rfl)
  | submit => exact hstep (.submitted none) (by simp [HandleRequest.step, hpc])
  | writeEof => exact hstep (.writeReturned (some .canceled)) (by simp [HandleRequest.step, hpc])
  | done => exact hdone (by rw [hpc]; rfl)

theorem Task.goes_on (t : Task) (tls : Bool) :
    ∃ act, act.raises = false ∧ (t.step tls true act).isSome = true := by
  cases t with
  | acceptLoop l => exact l.goes_on tls
  | session s => exact s.goes_on tls
  | handler h => exact h.goes_on tls

theorem World.goes_on {w : World} (hstop : w.group.stopRequested = true) {i : ℕ} {t : Task}
    (hget : w.coroutines[i]? = some t) :
    ∃ act, act.raises = false ∧ (w.step (.turn i act)).isSome = true := by
  obtain ⟨act, hact, hturn⟩ := t.goes_on w.tls
  refine ⟨act, hact, ?_⟩
  simpa only [World.step, hget, hstop, Option.isSome_map] using hturn

/-! ### The drain -/

/-- A `connect` that returns makes way for the session that it spawns, if any. -/
theorem World.connect_lt {w w' : World} (hconnecting : w.connecting ≠ 0) (ts : List Task)
    (hts : ∀ t ∈ ts, t.rank < connectRank) (hconnecting' : w'.connecting = w.connecting - 1)
    (hcoroutines : w'.coroutines = w.coroutines ++ ts) :
    w'.measure.IsDershowitzMannaLT w.measure := by
  obtain ⟨n, hn⟩ := Nat.exists_eq_succ_of_ne_zero hconnecting
  have hbefore : w.measure = Multiset.replicate n connectRank +
      (w.coroutines : Multiset Task).map Task.rank + {connectRank} := by
    rw [World.measure, hn, Multiset.replicate_succ, ← Multiset.singleton_add, add_assoc, add_comm]
  have hafter : w'.measure = Multiset.replicate n connectRank +
      (w.coroutines : Multiset Task).map Task.rank + (ts : Multiset Task).map Task.rank := by
    rw [World.measure, hconnecting', hn, hcoroutines, ← Multiset.coe_add, Multiset.map_add,
      add_assoc]
    rfl
  rw [hbefore, hafter]
  refine isDershowitzMannaLT_add_singleton _ fun y hy => ?_
  obtain ⟨t, ht, rfl⟩ := Multiset.mem_map.mp hy
  exact hts t (Multiset.mem_coe.mp ht)

/-- Once the stop is requested, every step is one down. -/
theorem World.step_lt {w w' : World} {act : WorldAction} {os : List WorldLabel}
    (hstop : w.group.stopRequested = true) (h : w.step act = some (w', os)) :
    w'.group.stopRequested = true ∧ w'.measure.IsDershowitzMannaLT w.measure := by
  cases act with
  | start acceptor => simp [World.step, hstop] at h
  | connect => simp [World.step, hstop] at h
  | connected output input =>
      simp only [World.step] at h
      split at h
      · cases h
      · rename_i hconnecting
        cases h
        refine ⟨hstop, World.connect_lt hconnecting _ (List.forall_mem_singleton.mpr ?_) rfl rfl⟩
        exact Rank.of_lt_of_kind (by omega) ..
  | connectFailed =>
      simp only [World.step] at h
      split at h
      · cases h
      · rename_i hconnecting
        cases h
        refine ⟨hstop, World.connect_lt hconnecting [] (by simp) rfl ?_⟩
        rw [List.append_nil]
  | requestStop => simp [World.step, hstop] at h
  | turn i act =>
      obtain ⟨t, turn, hget, hturn, heq⟩ := World.step_turn h
      rw [hstop] at hturn
      have hlt := Turn.on_lt Task.rank (Multiset.replicate w.connecting connectRank) hget
        (Task.step_lt hturn)
      obtain rfl : (w.turn i turn).1 = w' := congrArg Prod.fst heq
      refine ⟨by rw [World.turn_stopRequested, hstop], ?_⟩
      rw [World.measure, World.turn_connecting, World.turn_coroutines]
      exact hlt

/-- The drain in `~Impl()` comes to its end with nothing left. In every state,
`count()` is the number of coroutines that were spawned and have not completed, and
nothing is counted off below zero. Once the stop is requested, every step of the
scheduler decreases `World.measure`, every coroutine can go on without an exception of
its own, and whatever the scheduler picks, all of them complete. -/
theorem shutdown_drains {tr : List WorldLabel} {w : World}
    (run : worldMachine.Run anyStep tr w) :
    w.group.count = w.coroutines.length ∧ w.group.count + completed tr = spawned tr ∧
      (∀ act w' os, w.step act = some (w', os) → .completed ∈ os → 0 < w.group.count) ∧
      (w.group.stopRequested = true →
        (∀ w', w.Scheduled w' → w'.measure.IsDershowitzMannaLT w.measure) ∧
          (∀ i t, w.coroutines[i]? = some t →
            ∃ act, act.raises = false ∧ (w.step (.turn i act)).isSome = true) ∧
          Inevitable (Relation.TransGen World.Scheduled)
            (fun w => w.group.count = 0 ∧ w.coroutines = []) w) := by
  have hcounted := World.counted_run run
  refine ⟨hcounted.count, hcounted.trace, fun act w' os hs hos => ?_, fun hstop => ⟨?_, ?_, ?_⟩⟩
  · exact hcounted.completed_pos hs hos
  · rintro w' ⟨act, os, hs⟩
    exact (World.step_lt hstop hs).2
  · exact fun i t hget => World.goes_on hstop hget
  · refine inevitable_of_wellFounded (Multiset.wellFounded_isDershowitzMannaLT (α := Rank))
      World.measure (I := fun w => w.group.stopRequested = true ∧ ∃ tr, w.Counted tr)
      ?_ ?_ ?_ ⟨hstop, tr, hcounted⟩
    · rintro w w' ⟨hstop, tr, hcounted⟩ ⟨act, os, hs⟩
      exact ⟨(World.step_lt hstop hs).1, tr ++ os, hcounted.step hs⟩
    · rintro w w' ⟨hstop, -⟩ ⟨act, os, hs⟩
      exact (World.step_lt hstop hs).2
    · rintro w ⟨hstop, tr, hcounted⟩
      cases hcoroutines : w.coroutines with
      | nil => exact .inl ⟨by rw [hcounted.count, hcoroutines]; rfl, rfl⟩
      | cons t ts =>
          have hget : w.coroutines[0]? = some t := by rw [hcoroutines]; rfl
          obtain ⟨act, -, hsome⟩ := World.goes_on hstop hget
          obtain ⟨⟨w', os⟩, hs⟩ := Option.isSome_iff_exists.mp hsome
          exact .inr ⟨w', .turn 0 act, os, hs⟩

/-- A server that has accepted a connection over TLS and is reading a request from it,
next to a client, is destroyed. -/
theorem shutdown_drains_of_request :
    ∃ tr w, worldMachine.Run anyStep tr w ∧
      (w.group.stopRequested = true ∧ w.group.count = 4) ∧
      Inevitable (Relation.TransGen World.Scheduled)
        (fun w => w.group.count = 0 ∧ w.coroutines = []) w := by
  obtain ⟨tr, w, run, hw⟩ : ∃ tr w, worldMachine.Run anyStep tr w ∧
      (w.group.stopRequested = true ∧ w.group.count = 4) :=
    Machine.run_of_exec ⟨true, rfl⟩
      [.start 0, .turn 0 (.accept (.accept .suspends 0 {})),
        .turn 0 (.accept (.accept .succeeds 0 {})), .turn 0 (.accept (.handshake .succeeds true)),
        .turn 0 (.spawnSession 0 0), .connect, .connected 0 0,
        .turn 1 (.session .start), .turn 1 (.session (.startRecv true)),
        .turn 1 (.session (.read .succeeds 3 2)), .turn 1 (.dispatch true),
        .turn 3 (.handler (.begin false)), .turn 3 (.handler .suspend), .requestStop]
      (by decide)
  exact ⟨tr, w, run, hw, ((shutdown_drains run).2.2.2 hw.1).2.2⟩

end Nghttp2Corosio
