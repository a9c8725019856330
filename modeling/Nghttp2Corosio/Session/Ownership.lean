import Nghttp2Corosio.Session.Isolation

/-!
Who keeps a session and its streams alive.

A `Session::Impl` and its `Stream` objects are owned by `std::shared_ptr`s, and
they own each other: an entry of `streams_` owns the stream, and the stream owns
the session. Beside these there are the frame of `run()`, which owns the session
until the teardown is over, the frames of `handle_request`, which own the session
and the stream they were started for, and what users hold: the `Session` that
`connect()` returned, and what was made of the `Request`, `Response`,
`ClientRequest` and `ClientResponse` of a stream. nghttp2 owns nothing. It has a
plain pointer to the stream whose data provider it calls.

An object is destroyed when its last owner goes. A suspended operation does not
own the stream it is suspended on, so whoever operates on a stream is assumed to
hold it until the operation has returned.
-/

namespace Nghttp2Corosio

open Async Buffers Runs

/-- A session and its owners. -/
structure Owned where
  session : Session
  /-- The frames of `handle_request`, each by the place of its stream. -/
  handlers : List ℕ := []
  /-- The readers, writers and closures of users, each by the place of its stream. -/
  handles : List ℕ := []
  /-- The `Session` that `connect()` returned still exists. -/
  user : Bool
  freed : List ℕ := []
  gone : Bool := false

/-- `run()` has taken `self`. Only a client has a `Session`. -/
def Owned.fresh (role : Role) : Owned :=
  { session := Session.fresh role, user := decide (role = .client) }

def Owned.owners (o : Owned) (a : ℕ) : ℕ :=
  (o.session.streams.entries.map Sigma.snd).count a + o.handlers.count a + o.handles.count a

/-- The streams that exist, each of which owns the session. -/
def Owned.alive (o : Owned) : List ℕ := (List.range o.session.next).filter (· ∉ o.freed)

/-- How many own the session. -/
def Owned.sessionOwners (o : Owned) : ℕ :=
  (!o.session.finished).toNat + o.handlers.length + o.user.toNat + o.alive.length

/-- What has no owner left is destroyed, the streams first: the session may lose
its last owner with one of them. -/
def Owned.reap (o : Owned) : Owned :=
  let o := { o with freed := o.freed ++ o.alive.filter fun a => o.owners a = 0 }
  { o with gone := o.gone || decide (o.sessionOwners = 0) }

inductive OwnedAction
  | session (e : SessionAction)
  | handlerReturned (a : ℕ)
  | share (a : ℕ)
  | drop (a : ℕ)
  | dropSession
  deriving DecidableEq, Repr

/-- The requests for which a `handle_request` is started. -/
def dispatches (os : List SessionLabel) : List ℕ :=
  os.filterMap fun
    | .dispatched a => some a
    | _ => none

/-- The requests for which a `ClientRequest` is returned. -/
def submissions (os : List SessionLabel) : List ℕ :=
  os.filterMap fun
    | .requestSubmitted none (some a) => some a
    | _ => none

/-- Users operate on a stream and on a session through what they hold. All else
happens inside of `run()`. -/
def Owned.mayAct (o : Owned) : SessionAction → Bool
  | .user a _ _ | .submitResponse a _ _ => decide (a ∈ o.handlers ∨ a ∈ o.handles)
  | .submitRequest _ _ => o.user
  | _ => !o.session.finished

/-- What an action does to the session and to its owners. -/
def Owned.perform (o : Owned) : OwnedAction → Option (Owned × List SessionLabel)
  | .session e =>
      if o.mayAct e then
        (o.session.step e).map fun (s, os) =>
          ({ o with
            session := s
            handlers := dispatches os ++ o.handlers
            handles := submissions os ++ o.handles }, os)
      else none
  | .handlerReturned a =>
      if a ∈ o.handlers then some ({ o with handlers := o.handlers.erase a }, []) else none
  -- `get_response()` makes a reader, a handler moves its request elsewhere
  | .share a =>
      if a ∈ o.handlers ∨ a ∈ o.handles then some ({ o with handles := a :: o.handles }, [])
      else none
  | .drop a => if a ∈ o.handles then some ({ o with handles := o.handles.erase a }, []) else none
  | .dropSession => if o.user then some ({ o with user := false }, []) else none

def Owned.step (o : Owned) (a : OwnedAction) : Option (Owned × List SessionLabel) :=
  (o.perform a).map fun (o, os) => (o.reap, os)

def ownedMachine : Machine Owned OwnedAction SessionLabel where
  init o := ∃ role, o = Owned.fresh role
  step := Owned.step

theorem ownedMachine_init (role : Role) : ownedMachine.init (Owned.fresh role) := ⟨role, rfl⟩

/-- The `Stream` objects that an action of the session makes use of: the one that
is found, the one that nghttp2 or a user points to, or all that the teardown
closes. -/
def Session.touches (s : Session) : SessionAction → List ℕ
  | .header id _ _ | .frameRecv id _ _ | .dataChunk id _ _ | .streamClose id =>
      (s.findStream id).toList
  | .dataSourceRead a _ | .user a _ _ | .submitResponse a _ _ => [a]
  | .teardown => s.streams.entries.map Sigma.snd
  | _ => []

/-! ### What a step of the session registers -/

section Steps

variable {s s' : Session} {e : SessionAction} {os : List SessionLabel} {a : ℕ}

theorem mem_dispatches : a ∈ dispatches os ↔ .dispatched a ∈ os := by
  rw [dispatches, List.mem_filterMap]
  constructor
  · rintro ⟨l, hl, heq⟩
    cases l with
    | dispatched b =>
        cases heq
        exact hl
    | _ => cases heq
  · exact fun h => ⟨_, h, rfl⟩

theorem mem_submissions : a ∈ submissions os ↔ .requestSubmitted none (some a) ∈ os := by
  rw [submissions, List.mem_filterMap]
  constructor
  · rintro ⟨l, hl, heq⟩
    split at heq
    · cases heq
      exact hl
    · cases heq
  · exact fun h => ⟨_, h, rfl⟩

theorem Session.step_submitted (hs : s.step e = some (s', os))
    (hmem : .requestSubmitted none (some a) ∈ os) : a = s.next ∧ s'.next = s.next + 1 := by
  obtain ⟨-, hperform⟩ := Session.step_eq_some hs
  cases he : e.isLoop with
  | true => cases (Session.step_turns hs he).sameStreams.2 _ hmem
  | false =>
      obtain ⟨mid, hos, hmid⟩ := Session.step_labels hs he
      rw [hos, List.mem_append, List.mem_append] at hmem
      rcases hmem with (hmem | hmem) | hmem
      · cases e <;> simp [Session.announced] at hmem
      · obtain ⟨b, l, heq⟩ := hmid _ hmem
        cases heq
      · cases e with
        | submitRequest accepted adds =>
            obtain ⟨rfl, -⟩ := Prod.ext_iff.mp (Option.some.inj hperform)
            simp only [Session.concluded, Session.submitRequest] at hmem ⊢
            split at hmem
            · simp at hmem
            · rename_i hclient
              rw [if_neg hclient]
              cases accepted with
              | none => simp at hmem
              | some id =>
                  simp only [List.mem_singleton, SessionLabel.requestSubmitted.injEq,
                    Option.some.injEq, true_and] at hmem
                  exact ⟨hmem, rfl⟩
        | _ => simp [Session.concluded] at hmem

theorem Session.Moves.next (h : s.Moves e os s') :
    s'.next = s.next ∨ s'.next = s.next + 1 := by
  cases h with
  | quiet _ _ htable _ => exact .inl (by rw [htable])
  | act _ _ _ _ _ _ _ htable _ => exact .inl (by rw [htable])
  | register _ _ _ _ htable _ _ => exact .inr (by rw [htable])
  | close _ _ _ _ htable _ => exact .inl (by rw [htable])
  | teardown _ hclose => exact .inl (by rw [(Session.closeAll_eq_some hclose).1])

theorem Registry.lookup_of_erase {r : Registry} {id id' : ℤ}
    (h : (r.erase id').lookup id = some a) : r.lookup id = some a := by
  by_cases hid : id = id'
  · subst hid
    rw [AList.lookup_erase] at h
    cases h
  · rwa [AList.lookup_erase_ne hid] at h

theorem Session.Moves.lookup (h : s.Moves e os s') {id : ℤ}
    (hlookup : s'.streams.lookup id = some a) :
    s.streams.lookup id = some a ∨ a = s.next ∧ s'.next = s.next + 1 := by
  cases h with
  | quiet _ _ htable _ => exact .inl (by rwa [htable] at hlookup)
  | act _ _ _ _ _ _ _ htable _ => exact .inl (by rwa [htable] at hlookup)
  | register id' submitted _ _ htable _ _ =>
      rw [htable] at hlookup ⊢
      by_cases hid : id = id'
      · subst hid
        by_cases hmem : id ∈ s.streams
        · refine .inl ?_
          simpa only [Registry.emplace, if_pos hmem] using hlookup
        · rw [Registry.lookup_emplace hmem] at hlookup
          exact .inr ⟨(Option.some.inj hlookup).symm, rfl⟩
      · exact .inl (by rwa [Registry.lookup_emplace_ne hid] at hlookup)
  | close _ _ _ _ htable _ =>
      rw [htable] at hlookup
      exact .inl (Registry.lookup_of_erase hlookup)
  | teardown _ hclose =>
      rw [(Session.closeAll_eq_some hclose).1] at hlookup
      cases hlookup

end Steps

/-! ### Owners -/

section Owners

variable {o o' : Owned} {act : OwnedAction} {e : SessionAction} {os : List SessionLabel} {a : ℕ}

theorem Owned.owners_ne_zero :
    o.owners a ≠ 0 ↔ (∃ id, o.session.streams.lookup id = some a) ∨ a ∈ o.handlers ∨
      a ∈ o.handles := by
  rw [← Registry.mem_places, Owned.owners, ← Nat.pos_iff_ne_zero, Nat.add_pos_iff_pos_or_pos,
    Nat.add_pos_iff_pos_or_pos, List.count_pos_iff, List.count_pos_iff, List.count_pos_iff,
    or_assoc]

theorem Owned.mem_alive : a ∈ o.alive ↔ a < o.session.next ∧ a ∉ o.freed := by
  simp [Owned.alive]

theorem Owned.sessionOwners_eq_zero :
    o.sessionOwners = 0 ↔ o.session.finished = true ∧ o.handlers = [] ∧ o.user = false ∧
      ∀ a < o.session.next, a ∈ o.freed := by
  have halive : o.alive = [] ↔ ∀ a < o.session.next, a ∈ o.freed := by
    simp [Owned.alive, List.filter_eq_nil_iff]
  rw [← halive]
  simp [Owned.sessionOwners, Nat.add_eq_zero_iff, and_assoc]

/-- What has an owner exists, and what has none is destroyed. -/
structure Owned.Inv (o : Owned) : Prop where
  held : ∀ a, o.owners a ≠ 0 → a < o.session.next
  freed : ∀ a, a ∈ o.freed ↔ a < o.session.next ∧ o.owners a = 0
  once : o.freed.Nodup
  gone : o.gone = true ↔ o.sessionOwners = 0

theorem Owned.inv_fresh (role : Role) : (Owned.fresh role).Inv where
  held a ha := by
    rcases Owned.owners_ne_zero.mp ha with ⟨id, hid⟩ | ha | ha
    · cases hid
    · cases ha
    · cases ha
  freed a := ⟨fun ha => (List.not_mem_nil ha).elim, fun ha => absurd ha.1 a.not_lt_zero⟩
  once := List.nodup_nil
  gone := by
    rw [Owned.sessionOwners_eq_zero]
    exact ⟨fun h => (Bool.false_ne_true h).elim, fun h => (Bool.false_ne_true h.1).elim⟩

theorem Owned.Inv.not_freed (h : o.Inv) (ha : o.owners a ≠ 0) : a ∉ o.freed :=
  fun hfreed => ha ((h.freed a).mp hfreed).2

theorem Owned.Inv.not_gone_of_owners (h : o.Inv) (ha : o.owners a ≠ 0) : o.gone = false := by
  rw [Bool.eq_false_iff, ne_eq, h.gone, Owned.sessionOwners_eq_zero]
  rintro ⟨-, -, -, hall⟩
  exact h.not_freed ha (hall a (h.held a ha))

theorem Owned.Inv.not_gone (h : o.Inv) (hheld : o.session.finished = false ∨ o.user = true) :
    o.gone = false := by
  rw [Bool.eq_false_iff, ne_eq, h.gone, Owned.sessionOwners_eq_zero]
  rintro ⟨hfinished, -, huser, -⟩
  rcases hheld with heq | heq
  · rw [heq] at hfinished
    cases hfinished
  · rw [heq] at huser
    cases huser

theorem Owned.Inv.not_gone_of_mayAct (h : o.Inv) (hmay : o.mayAct e = true) :
    o.gone = false := by
  have hrunning (hmay : (!o.session.finished) = true) : o.gone = false :=
    h.not_gone (.inl (by simpa using hmay))
  have hholds {a : ℕ} (hmay : decide (a ∈ o.handlers ∨ a ∈ o.handles) = true) :
      o.gone = false :=
    h.not_gone_of_owners (Owned.owners_ne_zero.mpr (.inr (of_decide_eq_true hmay)))
  cases e with
  | user a act adds => exact hholds hmay
  | submitResponse a accepted adds => exact hholds hmay
  | submitRequest accepted adds => exact h.not_gone (.inr hmay)
  | _ => exact hrunning hmay

/-- How an action may change the owners before anything is destroyed: what gets an
owner has one already, or was made just now. -/
structure Owned.Passes (o o' : Owned) : Prop where
  alive : o.gone = false
  gone : o'.gone = o.gone
  freed : o'.freed = o.freed
  next : o.session.next ≤ o'.session.next
  owner : ∀ a, o'.owners a ≠ 0 →
    o.owners a ≠ 0 ∨ a = o.session.next ∧ o'.session.next = o.session.next + 1

theorem Owned.Inv.reap (h : o.Inv) (hp : o.Passes o') : o'.reap.Inv := by
  have hheld (a : ℕ) (ha : o'.owners a ≠ 0) : a < o'.session.next := by
    rcases hp.owner a ha with hold | ⟨rfl, hnew⟩
    · exact (h.held a hold).trans_le hp.next
    · omega
  have hfreed (a : ℕ) (ha : a ∈ o'.freed) : a < o'.session.next ∧ o'.owners a = 0 := by
    rw [hp.freed] at ha
    have hlt := ((h.freed a).mp ha).1
    refine ⟨hlt.trans_le hp.next, by_contra fun hne => ?_⟩
    rcases hp.owner a hne with hold | ⟨rfl, -⟩
    · exact h.not_freed hold ha
    · exact lt_irrefl _ hlt
  refine ⟨hheld, fun a => ?_, ?_, ?_⟩
  · show a ∈ o'.freed ++ o'.alive.filter (fun a => o'.owners a = 0) ↔
      a < o'.session.next ∧ o'.owners a = 0
    rw [List.mem_append, List.mem_filter, Owned.mem_alive, decide_eq_true_iff]
    constructor
    · rintro (hold | ⟨⟨hlt, -⟩, hnone⟩)
      · exact hfreed a hold
      · exact ⟨hlt, hnone⟩
    · rintro ⟨hlt, hnone⟩
      by_cases hold : a ∈ o'.freed
      · exact .inl hold
      · exact .inr ⟨⟨hlt, hold⟩, hnone⟩
  · refine List.Nodup.append (hp.freed ▸ h.once) ((List.nodup_range.filter _).filter _) ?_
    intro a hold hnew
    exact (Owned.mem_alive.mp (List.mem_filter.mp hnew).1).2 hold
  · show (o'.gone || decide _) = true ↔ _
    rw [hp.gone, hp.alive, Bool.false_or, decide_eq_true_iff]
    exact Iff.rfl

/-- A step of the session gives an owner to the streams that are found, and to the
one that is made. -/
theorem Owned.Inv.session_passes {s : Session} (h : o.Inv)
    (hmay : o.mayAct e = true) (hs : o.session.step e = some (s, os)) :
    o.Passes
      { o with
        session := s
        handlers := dispatches os ++ o.handlers
        handles := submissions os ++ o.handles } := by
  have hmoves := Session.step_moves hs
  refine ⟨h.not_gone_of_mayAct hmay, rfl, rfl, ?_, fun a ha => ?_⟩
  · show o.session.next ≤ s.next
    rcases hmoves.next with heq | heq <;> omega
  · rcases Owned.owners_ne_zero.mp ha with ⟨id, hid⟩ | ha | ha
    · refine (hmoves.lookup hid).imp_left fun hold => ?_
      exact Owned.owners_ne_zero.mpr (.inl ⟨id, hold⟩)
    · refine .inl (Owned.owners_ne_zero.mpr ?_)
      rcases List.mem_append.mp ha with ha | ha
      · obtain ⟨-, id, -, -, hfind⟩ := Session.step_dispatched hs (mem_dispatches.mp ha)
        exact .inl ⟨id, hfind⟩
      · exact .inr (.inl ha)
    · rcases List.mem_append.mp ha with ha | ha
      · exact .inr (Session.step_submitted hs (mem_submissions.mp ha))
      · exact .inl (Owned.owners_ne_zero.mpr (.inr (.inr ha)))

theorem Owned.Passes.of_users (hgone : o.gone = false) {handlers handles : List ℕ} {user : Bool}
    (hhandlers : ∀ a ∈ handlers, a ∈ o.handlers)
    (hhandles : ∀ a ∈ handles, a ∈ o.handlers ∨ a ∈ o.handles) :
    o.Passes { o with handlers, handles, user } := by
  refine ⟨hgone, rfl, rfl, le_rfl, fun a ha => .inl (Owned.owners_ne_zero.mpr ?_)⟩
  rcases Owned.owners_ne_zero.mp ha with hlookup | ha | ha
  · exact .inl hlookup
  · exact .inr (.inl (hhandlers a ha))
  · exact .inr (hhandles a ha)

theorem Owned.Inv.perform (h : o.Inv) (hp : o.perform act = some (o', os)) : o.Passes o' := by
  have hshared {a : ℕ} (ha : a ∈ o.handlers ∨ a ∈ o.handles) : o.gone = false :=
    h.not_gone_of_owners (Owned.owners_ne_zero.mpr (.inr ha))
  unfold Owned.perform at hp
  split at hp
  · split at hp
    · rename_i e hmay
      obtain ⟨⟨s, os⟩, hs, heq⟩ := Option.map_eq_some_iff.mp hp
      cases heq
      exact h.session_passes hmay hs
    · cases hp
  · split at hp
    · rename_i a ha
      cases hp
      exact .of_users (hshared (.inl ha)) (fun b hb => List.mem_of_mem_erase hb)
        fun b hb => .inr hb
    · cases hp
  · split at hp
    · rename_i a ha
      cases hp
      refine .of_users (hshared ha) (fun b hb => hb) fun b hb => ?_
      rcases List.mem_cons.mp hb with rfl | hb
      · exact ha
      · exact .inr hb
    · cases hp
  · split at hp
    · rename_i a ha
      cases hp
      exact .of_users (hshared (.inr ha)) (fun b hb => hb)
        fun b hb => .inr (List.mem_of_mem_erase hb)
    · cases hp
  · split at hp
    · rename_i huser
      cases hp
      exact .of_users (h.not_gone (.inr huser)) (fun b hb => hb) fun b hb => .inr hb
    · cases hp

end Owners

/-! ### Runs -/

section Runs

variable {o o' : Owned} {act : OwnedAction} {os tr : List SessionLabel}

theorem Owned.step_eq_some (hs : o.step act = some (o', os)) :
    ∃ o₁, o.perform act = some (o₁, os) ∧ o' = o₁.reap := by
  obtain ⟨⟨o₁, os⟩, hp, heq⟩ := Option.map_eq_some_iff.mp hs
  cases heq
  exact ⟨o₁, hp, rfl⟩

/-- The session takes a step of its own, or users do something among themselves. -/
theorem Owned.perform_session (hp : o.perform act = some (o', os)) :
    (∃ e, act = .session e ∧ o.mayAct e = true ∧ o.session.step e = some (o'.session, os)) ∨
      (∀ e, act ≠ .session e) ∧ o'.session = o.session ∧ os = [] := by
  cases act with
  | session e =>
      simp only [Owned.perform] at hp
      split at hp
      · rename_i hmay
        obtain ⟨⟨s, os⟩, hs, heq⟩ := Option.map_eq_some_iff.mp hp
        cases heq
        exact .inl ⟨e, rfl, hmay, hs⟩
      · cases hp
  | _ =>
      simp only [Owned.perform] at hp
      split at hp
      · cases hp
        exact .inr ⟨fun e he => (by cases he), rfl, rfl⟩
      · cases hp

theorem Owned.inv_run {ok : Owned → OwnedAction → Prop} (run : ownedMachine.Run ok tr o) :
    sessionMachine.Run anyStep tr o.session ∧ o.Inv := by
  refine run.invariant (I := fun tr o => sessionMachine.Run anyStep tr o.session ∧ o.Inv) ?_ ?_
  · rintro o ⟨role, rfl⟩
    exact ⟨.init (sessionMachine_init role), Owned.inv_fresh role⟩
  · rintro tr o act o' os ⟨run, h⟩ - hs
    obtain ⟨o₁, hp, rfl⟩ := Owned.step_eq_some hs
    refine ⟨?_, h.reap (h.perform hp)⟩
    show sessionMachine.Run anyStep (tr ++ os) o₁.session
    rcases Owned.perform_session hp with ⟨e, -, -, hs⟩ | ⟨-, hsession, rfl⟩
    · exact run.step trivial hs
    · rwa [hsession, List.append_nil]

/-- The plain pointer that nghttp2 has is to a stream that is registered. -/
theorem Session.pull_lookup {s s' : Session} {a length : ℕ}
    (run : sessionMachine.Run anyStep tr s)
    (hs : s.step (.dataSourceRead a length) = some (s', os)) :
    ∃ id, s.streams.lookup id = some a := by
  obtain ⟨hfinished, c, hc, hopen⟩ := Session.pull_registered run hs
  refine ⟨c.stream.id, ((Session.inv_run run).registered a c hc).mp ?_⟩
  by_contra hclosed
  rcases (Session.kept_run run).2 a c hc (by simpa using hclosed) with hid | hfinished'
  · exact hopen hid
  · rw [hfinished] at hfinished'
    cases hfinished'

/-- What an action makes use of has an owner. -/
theorem Owned.owners_of_touches {e : SessionAction} {s : Session} {a : ℕ}
    (run : sessionMachine.Run anyStep tr o.session) (hmay : o.mayAct e = true)
    (hs : o.session.step e = some (s, os)) (ha : a ∈ o.session.touches e) : o.owners a ≠ 0 := by
  rw [Owned.owners_ne_zero]
  have hfound {id : ℤ} (ha : a ∈ (o.session.findStream id).toList) :
      (∃ id, o.session.streams.lookup id = some a) ∨ a ∈ o.handlers ∨ a ∈ o.handles :=
    .inl ⟨id, Option.mem_toList.mp ha⟩
  cases e with
  | header id name value => exact hfound ha
  | frameRecv id request endStream => exact hfound ha
  | dataChunk id data adds => exact hfound ha
  | streamClose id => exact hfound ha
  | dataSourceRead b length =>
      obtain rfl := List.mem_singleton.mp ha
      exact .inl (Session.pull_lookup run hs)
  | user b act adds =>
      obtain rfl := List.mem_singleton.mp ha
      exact .inr (of_decide_eq_true hmay)
  | submitResponse b accepted adds =>
      obtain rfl := List.mem_singleton.mp ha
      exact .inr (of_decide_eq_true hmay)
  | teardown => exact .inl (Registry.mem_places.mp ha)
  | _ => cases ha

/-- In every run, nothing that was destroyed is used again: whenever the session
does something, it exists, and so do all the streams that it makes use of,
including the one that nghttp2 has only a plain pointer to. A stream is destroyed
once, when neither the registry nor a handler nor a user has it, and none of them
gets it back; and the session is destroyed after all of its streams. -/
theorem nothing_used_after_free (run : ownedMachine.Run anyStep tr o) :
    (∀ e o' os, o.step (.session e) = some (o', os) →
      o.gone = false ∧ ∀ a ∈ o.session.touches e, a < o.session.next ∧ a ∉ o.freed) ∧
    (∀ a ∈ o.freed, (∀ id, o.session.streams.lookup id ≠ some a) ∧ a ∉ o.handlers ∧
      a ∉ o.handles) ∧
    o.freed.Nodup ∧ (o.gone = true → ∀ a < o.session.next, a ∈ o.freed) := by
  obtain ⟨hsession, h⟩ := Owned.inv_run run
  refine ⟨fun e o' os hs => ?_, fun a ha => ?_, h.once, fun hgone => ?_⟩
  · obtain ⟨o₁, hp, -⟩ := Owned.step_eq_some hs
    rcases Owned.perform_session hp with ⟨e, heq, hmay, hs⟩ | ⟨hne, -⟩
    · cases heq
      refine ⟨h.not_gone_of_mayAct hmay, fun a ha => ?_⟩
      have howners := Owned.owners_of_touches hsession hmay hs ha
      exact ⟨h.held a howners, h.not_freed howners⟩
    · exact absurd rfl (hne e)
  · have hnone := mt Owned.owners_ne_zero.mpr (not_not_intro ((h.freed a).mp ha).2)
    push Not at hnone
    exact hnone
  · exact (Owned.sessionOwners_eq_zero.mp (h.gone.mp hgone)).2.2.2

/-- A server whose first request is answered, closed and destroyed while nghttp2 is
about to ask for the body of the second. -/
theorem nothing_used_after_free_of_two :
    ∃ tr o, ownedMachine.Run anyStep tr o ∧ o.freed = [0] ∧ 0 ∉ o.handlers ∧
      (∃ o' os, o.step (.session (.dataSourceRead 1 10)) = some (o', os)) ∧
      o.gone = false ∧ 1 ∉ o.freed := by
  obtain ⟨tr, o, run, hfreed, hpull⟩ :
      ∃ tr o, ownedMachine.Run anyStep tr o ∧ o.freed = [0] ∧
        (o.step (.session (.dataSourceRead 1 10))).isSome = true :=
    Machine.run_of_exec (ownedMachine_init .server)
      [.session (.memSend (some []) 0 true), .session (.startRecv true 0),
        .session (.readDone false 0), .session (.beginHeaders 1 true),
        .session (.frameRecv 1 true true), .session (.beginHeaders 3 true),
        .session (.frameRecv 3 true true), .session (.submitResponse 0 true 1),
        .session (.streamClose 1), .handlerReturned 0, .session (.submitResponse 1 true 1),
        .session (.memRecv false true 0), .session .resumeSend] (by decide)
  obtain ⟨⟨o', os⟩, hs⟩ := Option.isSome_iff_exists.mp hpull
  obtain ⟨hused, hdropped, -, -⟩ := nothing_used_after_free run
  obtain ⟨hgone, htouches⟩ := hused _ o' os hs
  refine ⟨tr, o, run, hfreed, (hdropped 0 (by simp [hfreed])).2.1, ⟨o', os, hs⟩, hgone, ?_⟩
  exact (htouches 1 (List.mem_singleton_self 1)).2

/-- On a session that is torn down no entry is removed, and an entry is added only
by a request that is accepted. -/
theorem Session.step_torn {s s' : Session} {e : SessionAction}
    (run : sessionMachine.Run anyStep tr s) (hfinished : s.finished = true)
    (hs : s.step e = some (s', os)) :
    s'.finished = true ∧
      (s'.streams = s.streams ∧ (∀ a, .requestSubmitted none (some a) ∉ os) ∨
        s'.streams ≠ ∅ ∧ ∃ a, .requestSubmitted none (some a) ∈ os) := by
  obtain ⟨hallows, hperform⟩ := Session.step_eq_some hs
  obtain ⟨⟨why, hsend⟩, hrecv⟩ := Session.torn_run run hfinished
  -- no stream was made, so none was asked for
  have hsame (hnext : s'.next = s.next) (a : ℕ) : .requestSubmitted none (some a) ∉ os := by
    intro hmem
    have hmade := (Session.step_submitted hs hmem).2
    omega
  cases Session.step_moves hs with
  | quiet _ _ htable _ =>
      refine ⟨by rwa [htable], .inl ⟨by rw [htable], hsame (by rw [htable])⟩⟩
  | act _ _ _ _ _ _ _ htable _ =>
      refine ⟨by rwa [htable], .inl ⟨by rw [htable], hsame (by rw [htable])⟩⟩
  | register id submitted hfresh _ htable _ he =>
      refine ⟨by rwa [htable], .inr ?_⟩
      rcases he with ⟨-, rfl⟩ | ⟨-, hclient, adds, rfl⟩
      · simp only [Session.allows, Session.receiving, hrecv] at hallows
        cases hallows
      · have hnew : s'.streams.lookup id = some s.next := by
          rw [htable]
          exact Registry.lookup_emplace ((Session.inv_run run).not_mem hfresh) s.next
        refine ⟨fun hempty => ?_, s.next, ?_⟩
        · rw [hempty] at hnew
          cases hnew
        · obtain ⟨-, rfl⟩ := Prod.ext_iff.mp (Option.some.inj hperform)
          simp [Session.submitRequest, hclient]
  | close he _ _ _ _ _ =>
      subst he
      simp [Session.allows, Session.receiving, Session.sending, hsend, hrecv] at hallows
  | teardown he _ =>
      subst he
      rw [(Session.step_teardown hs).2.2.1] at hfinished
      cases hfinished

/-- With nothing held outside, everything is destroyed if the registry is empty. -/
theorem Owned.Inv.destroyed_iff (h : o.Inv) (hfinished : o.session.finished = true)
    (hhandlers : o.handlers = []) (hhandles : o.handles = []) (huser : o.user = false) :
    (o.gone = true ∧ ∀ a < o.session.next, a ∈ o.freed) ↔ o.session.streams = ∅ := by
  have howners (a : ℕ) : o.owners a ≠ 0 ↔ ∃ id, o.session.streams.lookup id = some a := by
    rw [Owned.owners_ne_zero, hhandlers, hhandles]
    simp
  constructor
  · rintro ⟨-, hall⟩
    refine AList.ext (List.eq_nil_iff_forall_not_mem.mpr fun ⟨id, a⟩ hmem => ?_)
    have hne := (howners a).mpr ⟨id, AList.mem_lookup_iff.mpr hmem⟩
    exact h.not_freed hne (hall a (h.held a hne))
  · intro hempty
    have hall (a : ℕ) (ha : a < o.session.next) : a ∈ o.freed := by
      refine (h.freed a).mpr ⟨ha, by_contra fun hne => ?_⟩
      obtain ⟨id, hid⟩ := (howners a).mp hne
      rw [hempty] at hid
      cases hid
    exact ⟨h.gone.mpr (Owned.sessionOwners_eq_zero.mpr ⟨hfinished, hhandlers, huser, hall⟩), hall⟩

theorem Owned.step_teardown (hs : o.step (.session .teardown) = some (o', os)) :
    o'.session.finished = true ∧ o'.session.streams = ∅ := by
  obtain ⟨o₁, hp, rfl⟩ := Owned.step_eq_some hs
  rcases Owned.perform_session hp with ⟨e, heq, -, hs⟩ | ⟨hne, -⟩
  · cases heq
    have hclose := (Session.closeAll_eq_some (Session.step_teardown hs).2.2.2).1
    exact ⟨by rw [Owned.reap, hclose], by rw [Owned.reap, hclose]⟩
  · exact absurd rfl (hne .teardown)

/-- The registry of a torn down session shows whether a request was accepted since
then, of which `os` are the labels. -/
structure Owned.Torn (o : Owned) (os : List SessionLabel) : Prop where
  run : ∃ tr, sessionMachine.Run anyStep tr o.session
  finished : o.session.finished = true
  late : o.session.streams = ∅ ↔ ∀ a, .requestSubmitted none (some a) ∉ os

theorem Owned.Torn.step {os' : List SessionLabel} (h : o.Torn os)
    (hs : o.step act = some (o', os')) : o'.Torn (os ++ os') := by
  obtain ⟨o₁, hp, rfl⟩ := Owned.step_eq_some hs
  obtain ⟨tr, run⟩ := h.run
  rcases Owned.perform_session hp with ⟨e, -, -, hs⟩ | ⟨-, hsession, rfl⟩
  · obtain ⟨hfinished, hcases⟩ := Session.step_torn run h.finished hs
    refine ⟨⟨_, run.step trivial hs⟩, hfinished, ?_⟩
    show o₁.session.streams = ∅ ↔ _
    rcases hcases with ⟨hsame, hnone⟩ | ⟨hentry, a, ha⟩
    · rw [hsame, h.late]
      simp [hnone]
    · refine ⟨fun hempty => absurd hempty hentry, fun hnone => ?_⟩
      exact absurd (List.mem_append_right os ha) (hnone a)
  · rw [List.append_nil]
    have hsession : o₁.reap.session = o.session := hsession
    exact ⟨hsession ▸ h.run, hsession ▸ h.finished, hsession ▸ h.late⟩

/-- What is destroyed in the end. Once the teardown is over and handlers and users
have let go of everything, the session and all of its streams are destroyed,
unless a request was accepted after the teardown: it is registered with a session
that nobody tears down again, and both keep each other alive. -/
theorem destroyed_iff_no_late_request {as : List OwnedAction} {o₁ o₂ : Owned}
    {os₁ os₂ : List SessionLabel} (run : ownedMachine.Run anyStep tr o)
    (hs : o.step (.session .teardown) = some (o₁, os₁))
    (hexec : ownedMachine.exec anyStep o₁ as = some (o₂, os₂)) (hhandlers : o₂.handlers = [])
    (hhandles : o₂.handles = []) (huser : o₂.user = false) :
    (o₂.gone = true ∧ ∀ a < o₂.session.next, a ∈ o₂.freed) ↔
      ∀ a, .requestSubmitted none (some a) ∉ os₂ := by
  have run₁ : ownedMachine.Run anyStep (tr ++ os₁) o₁ := run.step trivial hs
  obtain ⟨hfinished, hempty⟩ := Owned.step_teardown hs
  have htorn : o₂.Torn os₂ :=
    Machine.exec_invariant (A := fun _ => True) (I := fun _ os o => o.Torn os)
      (fun _ _ _ _ _ _ h _ hs => h.step hs)
      ⟨⟨_, (Owned.inv_run run₁).1⟩, hfinished, by simp [hempty]⟩ (fun _ _ => trivial) hexec
  rw [← htorn.late]
  exact (Owned.inv_run (run₁.exec hexec)).2.destroyed_iff htorn.finished hhandlers hhandles huser

/-- A client with a request from before the teardown, and then either none or one
from after it. -/
theorem destroyed_iff_no_late_request_of_client :
    ∃ tr o o₁ os₁, ownedMachine.Run anyStep tr o ∧
      o.step (.session .teardown) = some (o₁, os₁) ∧
      (∃ o₂, ownedMachine.exec anyStep o₁ [.drop 0, .dropSession] = some (o₂, []) ∧
        o₂.gone = true ∧ ∀ a < o₂.session.next, a ∈ o₂.freed) ∧
      ∃ o₂ os₂, ownedMachine.exec anyStep o₁
          [.session (.submitRequest (some 3) 1), .drop 0, .drop 1, .dropSession] =
          some (o₂, os₂) ∧
        ¬(o₂.gone = true ∧ ∀ a < o₂.session.next, a ∈ o₂.freed) := by
  obtain ⟨tr, o, run, hdecided⟩ :
      ∃ tr o, ownedMachine.Run anyStep tr o ∧
        ((o.step (.session .teardown)).any fun (o₁, _) =>
          ((ownedMachine.exec anyStep o₁ [.drop 0, .dropSession]).any fun (o₂, os₂) =>
            decide ((o₂.handlers = [] ∧ o₂.handles = [] ∧ o₂.user = false) ∧ os₂ = [])) &&
          (ownedMachine.exec anyStep o₁
            [.session (.submitRequest (some 3) 1), .drop 0, .drop 1, .dropSession]).any
            fun (o₂, os₂) => decide ((o₂.handlers = [] ∧ o₂.handles = [] ∧ o₂.user = false) ∧
              .requestSubmitted none (some 1) ∈ os₂)) = true :=
    Machine.run_of_exec (ownedMachine_init .client)
      [.session (.memSend (some []) 0 true), .session (.startRecv true 0),
        .session (.submitRequest (some 1) 1), .session (.readDone true 1),
        .session .resumeSend, .session (.memSend (some []) 0 false)] (by decide)
  obtain ⟨⟨o₁, os₁⟩, hs, hboth⟩ := (Option.any_eq_true _ _).mp hdecided
  obtain ⟨hnone, hlate⟩ := Bool.and_eq_true_iff.mp hboth
  obtain ⟨⟨o₂, os₂⟩, hexec, hheld⟩ := (Option.any_eq_true _ _).mp hnone
  obtain ⟨⟨o₃, os₃⟩, hexec', hheld'⟩ := (Option.any_eq_true _ _).mp hlate
  obtain ⟨⟨hhandlers, hhandles, huser⟩, hos⟩ := of_decide_eq_true hheld
  obtain ⟨⟨hhandlers', hhandles', huser'⟩, hmem⟩ := of_decide_eq_true hheld'
  subst hos
  refine ⟨tr, o, o₁, os₁, run, hs, ⟨o₂, hexec, ?_⟩, o₃, os₃, hexec', fun hall => ?_⟩
  · exact (destroyed_iff_no_late_request run hs hexec hhandlers hhandles huser).mpr (by simp)
  · exact (destroyed_iff_no_late_request run hs hexec' hhandlers' hhandles' huser').mp hall 1 hmem

end Runs

end Nghttp2Corosio
