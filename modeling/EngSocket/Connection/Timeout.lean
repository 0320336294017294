import EngSocket.Connection.Lifecycle

/-!
# The timer of a connection attempt

`DoConnect` sets `m_tOutTimer` to `CONNECT_TIMEOUT`, and every `Update` that finds the
manager connecting takes its `dt` from it. The same value marks the first of these
updates, at which a writable descriptor does not yet count as a connection. When the
attempt ends, and how, is `EngSocket.Endpoint.connects_or_times_out`.
-/

namespace EngSocket

open Foundation

/-- The first updates after a dial, each with the answer to its `CheckState`. There is no
answer to a `Send` or a `Recv` among them. -/
def ticks (dt : Nat → Int) (report : Nat → SelectReply) : Nat → List Event
  | 0 => []
  | count + 1 => ticks dt report count ++
      [.Update (dt (count + 1)), .reply (.select (report (count + 1)))]

/-- The time that has passed after some updates. -/
def elapsed (dt : Nat → Int) : Nat → Int
  | 0 => 0
  | count + 1 => elapsed dt count + dt (count + 1)

/-- The descriptor is writable at an update, and the update is not the first one. -/
def Answers (report : Nat → SelectReply) (index : Nat) : Prop :=
  2 ≤ index ∧ (report index).write = true

/-- The descriptor is not writable at an update, and the time is over. -/
def RunsOut (dt : Nat → Int) (report : Nat → SelectReply) (index : Nat) : Prop :=
  1 ≤ index ∧ (report index).write = false ∧ CONNECT_TIMEOUT ≤ elapsed dt index

instance (report : Nat → SelectReply) : DecidablePred (Answers report) := fun index =>
  inferInstanceAs (Decidable (2 ≤ index ∧ _))

instance (dt : Nat → Int) (report : Nat → SelectReply) : DecidablePred (RunsOut dt report) :=
  fun index => inferInstanceAs (Decidable (1 ≤ index ∧ _))

/-- Neither has happened at the updates up to `count`. -/
def StillWaits (dt : Nat → Int) (report : Nat → SelectReply) (count : Nat) : Prop :=
  ∀ index ≤ count, ¬ Answers report index ∧ ¬ RunsOut dt report index

section Time

variable {dt : Nat → Int} {report : Nat → SelectReply} {count : Nat}

theorem StillWaits.before (waits : StillWaits dt report (count + 1)) :
    StillWaits dt report count :=
  fun index before => waits index (Nat.le_succ_of_le before)

theorem le_elapsed (positive : ∀ index, 1 ≤ index → 1 ≤ dt index) (count : Nat) :
    (count : Int) ≤ elapsed dt count := by
  induction count with
  | zero => exact le_rfl
  | succ count ih =>
      have more := positive (count + 1) (Nat.le_add_left 1 count)
      rw [elapsed, Nat.cast_succ]
      exact add_le_add ih more

/-- At an update that leaves the manager waiting, and is not the first one, the
descriptor is not writable and there is time left. -/
theorem StillWaits.within (waits : StillWaits dt report count) (later : 2 ≤ count) :
    (report count).write = false ∧ elapsed dt count < CONNECT_TIMEOUT := by
  obtain ⟨silent, inTime⟩ := waits count le_rfl
  have closed : (report count).write = false :=
    Bool.eq_false_of_not_eq_true fun writable => silent ⟨later, writable⟩
  refine ⟨closed, not_le.mp fun over_ => inTime ⟨?_, closed, over_⟩⟩
  exact Nat.le_of_succ_le later

/-- The first update may last longer than the timeout. -/
theorem StillWaits.elapsed_le (waits : StillWaits dt report count)
    (range : ∀ index, 1 ≤ index → 1 ≤ dt index ∧ dt index ≤ 1073741824) :
    elapsed dt count ≤ 1073741824 := by
  by_cases later : 2 ≤ count
  · have inTime := (waits.within later).2
    unfold CONNECT_TIMEOUT at inTime
    omega
  · cases count with
    | zero =>
        rw [elapsed]
        norm_num
    | succ before =>
        have first : before = 0 := by omega
        rw [first, elapsed, elapsed, zero_add]
        exact (range 1 le_rfl).2

end Time

namespace Endpoint

/-- A manager that is connecting, with this much time left. -/
structure Awaiting (timer : Int) (endpoint : Endpoint) : Prop where
  state : endpoint.GetState = .Connecting
  timer : endpoint.manager.m_tOutTimer = timer
  socket : endpoint.manager.m_pSocket.isSome = true

/-- The queues are as before. -/
def SameQueues (before after : Endpoint) : Prop :=
  after.manager.m_sendList = before.manager.m_sendList ∧
    after.manager.m_recvList = before.manager.m_recvList

variable {endpoint : Endpoint} {timer : Int}

theorem SameMessages.queues {after : Endpoint} (same : endpoint.SameMessages after) :
    endpoint.SameQueues after := ⟨same.sendList, same.recvList⟩

theorem SameQueues.trans {first second third : Endpoint} (earlier : first.SameQueues second)
    (later : second.SameQueues third) : first.SameQueues third :=
  ⟨later.1.trans earlier.1, later.2.trans earlier.2⟩

/-- A dial that returns true has started the timer. -/
theorem DoConnect_awaiting {addr : ServerName} {port : Int} {dial : Dial} {opened : Endpoint}
    (dialled : endpoint.DoConnect addr port dial = .ok (true, opened)) :
    opened.Awaiting CONNECT_TIMEOUT := by
  rcases endpoint.DoConnect_cases addr port dial with
    ⟨reached, errorCode, failed, -⟩ | ⟨reached, socket, checks, -, present⟩
  · cases failed.symm.trans dialled
  · rw [checks] at dialled
    cases outcome : dial.select.failed with
    | true =>
        obtain ⟨after, checked, -⟩ := CheckState_of_failed outcome present
        cases checked.symm.trans dialled
    | false =>
        cases (CheckState_of_not_failed outcome present).symm.trans dialled
        exact ⟨rfl, rfl, rfl⟩

/-- The manager once `CheckState` has set the flags of its socket. -/
def flagged (reply : SelectReply) (socket : CSocketCommon) (endpoint : Endpoint) : Endpoint :=
  endpoint.modify fun manager => { manager with
    m_pSocket := some { socket with m_writeFlag := reply.write, m_readFlag := reply.read } }

/-- An update of a connecting manager and its answer. -/
theorem Awaiting.run_tick (awaiting : endpoint.Awaiting timer) (dt : Int) {reply : SelectReply}
    (succeeded : reply.failed = false) :
    ∃ socket : CSocketCommon,
      machine.run (.idle endpoint) [.Update dt, .reply (.select reply)] =
        some ((endpoint.flagged reply socket).awaitConnection dt) := by
  obtain ⟨socket, present⟩ := Option.isSome_iff_exists.mp awaiting.socket
  refine ⟨socket, ?_⟩
  have called : machine.step (.idle endpoint) (.Update dt) =
      some (.waiting (.checkFirst dt) endpoint) := by
    change some (endpoint.Update dt) = _
    simp only [Update, present, awaiting.state, reduceCtorEq, or_self, ↓reduceIte]
  have connecting : (endpoint.flagged reply socket).GetState = .Connecting := awaiting.state
  have answered : machine.step (.waiting (.checkFirst dt) endpoint) (.reply (.select reply)) =
      some ((endpoint.flagged reply socket).awaitConnection dt) := by
    change some (endpoint.checkStateThen reply (afterFirstCheck dt)) = _
    rw [checkStateThen, CheckState_of_not_failed succeeded present]
    change some ((endpoint.flagged reply socket).afterFirstCheck dt) = _
    rw [afterFirstCheck, if_neg (by rw [connecting]; exact NetConState.noConfusion),
      if_pos connecting]
  rw [Machine.run_cons, called, Option.bind_some, Machine.run_cons, answered, Option.bind_some,
    Machine.run_nil]

/-- The manager goes on waiting: at the first update, or with time left. -/
theorem Awaiting.waits (awaiting : endpoint.Awaiting timer) {dt : Int} {reply : SelectReply}
    (succeeded : reply.failed = false) (fits : int32 (timer - dt) = timer - dt)
    (waits : reply.write = true ∧ timer = CONNECT_TIMEOUT ∨
      reply.write = false ∧ 0 < timer - dt) :
    ∃ after, machine.run (.idle endpoint) [.Update dt, .reply (.select reply)] =
        some (.idle after) ∧ after.Awaiting (timer - dt) ∧ endpoint.SameQueues after := by
  obtain ⟨socket, ran⟩ := awaiting.run_tick dt succeeded
  rw [ran]
  unfold awaitConnection
  simp only [flagged, modify, awaiting.timer, fits]
  rcases waits with ⟨writable, rfl⟩ | ⟨closed, inTime⟩
  · simp only [writable, ↓reduceIte, ne_eq, not_true_eq_false]
    exact ⟨_, rfl, ⟨awaiting.state, rfl, rfl⟩, rfl, rfl⟩
  · simp only [closed, Bool.false_eq_true, ↓reduceIte, not_le.mpr inTime]
    exact ⟨_, rfl, ⟨awaiting.state, rfl, rfl⟩, rfl, rfl⟩

/-- A writable descriptor at a later update: the connection is up. -/
theorem Awaiting.connects (awaiting : endpoint.Awaiting timer) (dt : Int) {reply : SelectReply}
    (succeeded : reply.failed = false) (writable : reply.write = true)
    (later : timer ≠ CONNECT_TIMEOUT) :
    ∃ after, machine.run (.idle endpoint) [.Update dt, .reply (.select reply)] =
        some (.idle after) ∧ after.GetState = .Connected ∧ endpoint.SameQueues after := by
  obtain ⟨socket, ran⟩ := awaiting.run_tick dt succeeded
  rw [ran]
  unfold awaitConnection
  simp only [flagged, modify, awaiting.timer, writable, ↓reduceIte, later.symm, ne_eq,
    not_false_eq_true]
  exact ⟨_, rfl, rfl, rfl, rfl⟩

/-- No writable descriptor and no time left: the attempt is given up. -/
theorem Awaiting.times_out (awaiting : endpoint.Awaiting timer) {dt : Int} {reply : SelectReply}
    (succeeded : reply.failed = false) (fits : int32 (timer - dt) = timer - dt)
    (closed : reply.write = false) (over_ : timer - dt ≤ 0) :
    ∃ after, machine.run (.idle endpoint) [.Update dt, .reply (.select reply)] =
        some (.idle after) ∧ after.GetState = .ConnectTimeOut ∧
          after.manager.m_pSocket = none ∧ endpoint.SameQueues after := by
  obtain ⟨socket, ran⟩ := awaiting.run_tick dt succeeded
  rw [ran]
  unfold awaitConnection
  simp only [flagged, modify, awaiting.timer, fits, closed, Bool.false_eq_true, ↓reduceIte, over_]
  exact ⟨_, rfl, rfl, Close_socket _, (OnTimeOut_same _).queues⟩

/-! ## Runs -/

/-- No run without a dial makes the manager connect. -/
def NeverConnecting (endpoint : Endpoint) : Prop :=
  ∀ events final, (∀ event ∈ events, event.dials = false) →
    machine.run (.idle endpoint) events = some final → final.endpoint.GetState ≠ .Connecting

theorem neverConnecting_of_settled (settled : endpoint.GetState ≠ .Connecting) :
    endpoint.NeverConnecting := by
  intro events final own reached
  have holds := Machine.state_invariant
    (fun control => control.Armed ∧ control.endpoint.GetState ≠ .Connecting)
    (fun _ _ _ dials holds stepped => ⟨holds.1.step stepped,
      (Control.passes_step holds.1 dials stepped).not_connecting holds.2⟩)
    (Machine.Meets.of_forall_mem own (.idle endpoint)) reached ⟨trivial, settled⟩
  exact holds.2

section Run

variable {dt : Nat → Int} {report : Nat → SelectReply} {opened : Endpoint} {count : Nat}

/-- The timer does not wrap at the update that follows. -/
theorem timer_fits (waits : StillWaits dt report count)
    (range : ∀ index, 1 ≤ index → 1 ≤ dt index ∧ dt index ≤ 1073741824) :
    int32 (CONNECT_TIMEOUT - elapsed dt count - dt (count + 1)) =
      CONNECT_TIMEOUT - elapsed dt count - dt (count + 1) := by
  have atMost := waits.elapsed_le range
  have atLeast := le_elapsed (fun index first => (range index first).1) count
  have next := range (count + 1) (Nat.le_add_left 1 count)
  unfold CONNECT_TIMEOUT
  exact int32_of_range (by omega) (by omega)

theorem run_ticks_succ {middle : Endpoint} (dt : Nat → Int) (report : Nat → SelectReply)
    (ran : machine.run (.idle opened) (ticks dt report count) = some (.idle middle)) :
    machine.run (.idle opened) (ticks dt report (count + 1)) =
      machine.run (.idle middle)
        [.Update (dt (count + 1)), .reply (.select (report (count + 1)))] := by
  rw [ticks, Machine.run_append, ran, Option.bind_some]

/-- **Waiting.** The induction is on the updates; each takes its `dt` from the timer. -/
theorem Awaiting.run_ticks (awaiting : opened.Awaiting CONNECT_TIMEOUT)
    (range : ∀ index, 1 ≤ index → 1 ≤ dt index ∧ dt index ≤ 1073741824)
    (succeeds : ∀ index, 1 ≤ index → (report index).failed = false)
    (waits : StillWaits dt report count) :
    ∃ after, machine.run (.idle opened) (ticks dt report count) = some (.idle after) ∧
      after.Awaiting (CONNECT_TIMEOUT - elapsed dt count) ∧ opened.SameQueues after := by
  induction count with
  | zero => exact ⟨opened, rfl, by rwa [elapsed, sub_zero], rfl, rfl⟩
  | succ count ih =>
      obtain ⟨middle, ran, awaiting, same⟩ := ih waits.before
      have first := Nat.le_add_left 1 count
      have goesOn : (report (count + 1)).write = true ∧
            CONNECT_TIMEOUT - elapsed dt count = CONNECT_TIMEOUT ∨
          (report (count + 1)).write = false ∧
            0 < CONNECT_TIMEOUT - elapsed dt count - dt (count + 1) := by
        obtain ⟨silent, inTime⟩ := waits (count + 1) le_rfl
        cases writable : (report (count + 1)).write with
        | true =>
            -- The first update is the only one at which a writable descriptor is passed by.
            have none_ : count = 0 := by
              by_contra later
              exact silent ⟨by omega, writable⟩
            rw [none_, elapsed, sub_zero]
            exact Or.inl ⟨rfl, rfl⟩
        | false =>
            refine Or.inr ⟨rfl, ?_⟩
            by_contra late
            refine inTime ⟨first, writable, ?_⟩
            rw [elapsed]
            omega
      obtain ⟨after, ticked, awaits, kept⟩ :=
        awaiting.waits (succeeds _ first) (timer_fits waits.before range) goesOn
      refine ⟨after, (run_ticks_succ dt report ran).trans ticked, ?_, same.trans kept⟩
      rwa [elapsed, ← sub_sub]

/-- **The connect timeout.** Until the descriptor is writable at a later update than the
first, or the time is over without it, the manager waits with the rest of the time in
its timer; then it is connected, or has given up, and no message has been touched. -/
theorem connects_or_times_out {before : Endpoint} {addr : ServerName} {port : Int} {dial : Dial}
    (dialled : before.DoConnect addr port dial = .ok (true, opened))
    (range : ∀ index, 1 ≤ index → 1 ≤ dt index ∧ dt index ≤ 1073741824)
    (succeeds : ∀ index, 1 ≤ index → (report index).failed = false) :
    (∀ count, StillWaits dt report count →
      ∃ after, machine.run (.idle opened) (ticks dt report count) = some (.idle after) ∧
        after.GetState = .Connecting ∧
          after.manager.m_tOutTimer = CONNECT_TIMEOUT - elapsed dt count ∧
            opened.SameQueues after) ∧
      (∀ k, Answers report k →
        (∀ index < k, ¬ Answers report index ∧ ¬ RunsOut dt report index) →
          ∃ after, machine.run (.idle opened) (ticks dt report k) = some (.idle after) ∧
            after.GetState = .Connected ∧ opened.SameQueues after ∧ after.NeverConnecting) ∧
      ∀ t, RunsOut dt report t →
        (∀ index < t, ¬ Answers report index ∧ ¬ RunsOut dt report index) →
          ∃ after, machine.run (.idle opened) (ticks dt report t) = some (.idle after) ∧
            after.GetState = .ConnectTimeOut ∧ after.manager.m_pSocket = none ∧
              opened.SameQueues after ∧ after.NeverConnecting := by
  have started := DoConnect_awaiting dialled
  refine ⟨?_, ?_, ?_⟩
  · intro count waits
    obtain ⟨after, ran, awaiting, same⟩ := started.run_ticks range succeeds waits
    exact ⟨after, ran, awaiting.state, awaiting.timer, same⟩
  · rintro k ⟨later, writable⟩ early
    obtain ⟨count, rfl⟩ := Nat.exists_eq_succ_of_ne_zero (Nat.ne_zero_of_lt later)
    have waits : StillWaits dt report count := fun index inside =>
      early index (Nat.lt_succ_of_le inside)
    obtain ⟨middle, ran, awaiting, same⟩ := started.run_ticks range succeeds waits
    have passed := le_elapsed (fun index first => (range index first).1) count
    obtain ⟨after, ticked, connected, kept⟩ := awaiting.connects (dt (count + 1))
      (succeeds _ (Nat.le_add_left 1 count)) writable (by omega)
    refine ⟨after, (run_ticks_succ dt report ran).trans ticked, connected, same.trans kept, ?_⟩
    apply neverConnecting_of_settled
    rw [connected]
    exact NetConState.noConfusion
  · rintro t ⟨first, closed, late⟩ early
    obtain ⟨count, rfl⟩ := Nat.exists_eq_succ_of_ne_zero (Nat.ne_zero_of_lt first)
    have waits : StillWaits dt report count := fun index inside =>
      early index (Nat.lt_succ_of_le inside)
    obtain ⟨middle, ran, awaiting, same⟩ := started.run_ticks range succeeds waits
    rw [elapsed] at late
    obtain ⟨after, ticked, timedOut, null, kept⟩ := awaiting.times_out (succeeds _ first)
      (timer_fits waits range) closed (by omega)
    refine ⟨after, (run_ticks_succ dt report ran).trans ticked, timedOut, null, same.trans kept, ?_⟩
    apply neverConnecting_of_settled
    rw [timedOut]
    exact NetConState.noConfusion

end Run

/-- Two seconds pass at each update, and the descriptor is writable at the first one only. -/
theorem times_out_of_early_answer :
    ∃ opened after : Endpoint,
      (Endpoint.new .fresh).DoConnect ⟨"peer", by decide⟩ 80
          { addresses := some [{ createSocket := 3, connectTo := -1, errno := EINPROGRESS }]
            select := .quiet } = .ok (true, opened) ∧
        machine.run (.idle opened)
            (ticks (fun _ => 2000) (fun index => if index = 1 then .writable else .quiet) 3) =
          some (.idle after) ∧
        after.GetState = .ConnectTimeOut ∧ after.manager.m_pSocket = none := by
  have computed : ((Endpoint.new .fresh).DoConnect ⟨"peer", by decide⟩ 80
      { addresses := some [{ createSocket := 3, connectTo := -1, errno := EINPROGRESS }]
        select := .quiet }).toOption.map Prod.fst = some true := by decide
  obtain ⟨⟨result, opened⟩, returned, rfl⟩ := Option.map_eq_some_iff.mp computed
  have dialled := toOption_eq_some returned
  obtain ⟨-, -, timesOut⟩ := @connects_or_times_out (fun _ => 2000)
    (fun index => if index = 1 then .writable else .quiet) _ _ _ _ _ dialled
    (fun _ _ => by decide) (fun index _ => by split <;> rfl)
  obtain ⟨after, ran, state, null, -⟩ := timesOut 3 (by decide) (by decide)
  exact ⟨opened, after, dialled, ran, state, null⟩

end Endpoint

end EngSocket
