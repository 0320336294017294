import EngSocket.Transmission.Queue

/-!
# The end of the send loop

The loop on a message asks for `getSendCap` bytes until `isEnd` holds, which it
never does for a negative size. A message whose size is known and whose end is an
`int` is sent in at most as many calls as it has bytes
(`EngSocket.NetMessage.Layout.sendsOut`); on any other the loop goes on for ever
(`EngSocket.NetMessage.Laid.sendsForever`).
-/

namespace EngSocket

open Foundation

/-- The answers to the `Send`s of the loop. Of some bytes at least one is accepted,
or the call fails; of none, none. -/
def Control.Accepts (control : Control) : Event → Prop
  | .reply (.send sizeSended) => ∀ message ∈ control.endpoint.manager.m_sendList.head?,
      (0 < message.getSendCap →
        sizeSended = -1 ∨ 1 ≤ sizeSended ∧ sizeSended ≤ message.getSendCap) ∧
      (message.getSendCap = 0 → sizeSended = 0)
  | _ => False

/-- The message whose bytes a `Send` is asked to take. -/
def Control.sending : Control → Option NetMessage
  | .waiting .send endpoint => endpoint.manager.m_sendList.head?
  | _ => none

/-- The loop on a message ends after a bounded number of `Send`s, each of which
asks for at least one byte. -/
def NetMessage.SendsOut (message : NetMessage) : Prop :=
  ∀ (endpoint : Endpoint) (rest : List NetMessage), ∃ bound : Nat, ∀ events final,
    Endpoint.machine.Meets Control.Accepts (endpoint.sendMessage message rest) events →
      Endpoint.machine.run (endpoint.sendMessage message rest) events = some final →
        events.length ≤ bound ∧ ∀ asked ∈ final.sending, 0 < asked.getSendCap

/-- The loop on a message may go on for any number of `Send`s. -/
def NetMessage.SendsForever (message : NetMessage) : Prop :=
  ∀ (endpoint : Endpoint) (rest : List NetMessage) (count : Nat), ∃ events final,
    events.length = count ∧
      Endpoint.machine.Meets Control.Accepts (endpoint.sendMessage message rest) events ∧
        Endpoint.machine.run (endpoint.sendMessage message rest) events = some final

/-- The numbers that a message has while a `CLuaMsg` holds it. -/
structure NetMessage.Laid (message : NetMessage) : Prop where
  size : message.m_size < 2147483648
  layout : message.m_bufStartPos = 0 ∧
      (message.m_headSize = 2 ∨ message.m_headSize = 4 ∨ message.m_headSize = 6) ∨
    message.m_bufStartPos = 4 ∧ message.m_headSize = 2 ∧ message.m_size < 65535

theorem NetMessage.SendsForever.not_sendsOut {message : NetMessage}
    (forever : message.SendsForever) : ¬ message.SendsOut := by
  intro sendsOut
  obtain ⟨bound, bounded⟩ := sendsOut (.new .fresh) []
  obtain ⟨events, final, count, meets, reached⟩ := forever (.new .fresh) [] (bound + 1)
  have few := (bounded events final meets reached).1
  omega

namespace Control

variable {control next : Control} {event : Event} {bound count : Nat}

/-- How far the loop is after a number of `Send`s. -/
def Within (bound count : Nat) : Control → Prop
  | .waiting .send endpoint => ∃ message rest,
      endpoint.manager.m_sendList = message :: rest ∧ message.Sendable ∧ 0 ≤ message.m_size ∧
        0 < message.getSendCap ∧ count + message.getSendCap ≤ bound
  | _ => count ≤ bound

theorem Within.count_le (within : control.Within bound count) : count ≤ bound := by
  unfold Within at within
  split at within
  · obtain ⟨message, rest, -, -, -, some_, left⟩ := within
    omega
  · exact within

theorem Within.sending (within : control.Within bound count) :
    ∀ asked ∈ control.sending, 0 < asked.getSendCap := by
  intro asked member
  unfold Control.sending at member
  split at member
  · obtain ⟨message, rest, list, -, -, some_, -⟩ := within
    rw [list] at member
    cases member
    exact some_
  · cases member

/-- **One `Send`** brings the loop nearer to its end. -/
theorem Within.step (within : control.Within bound count) (accepts : control.Accepts event)
    (stepped : Endpoint.machine.step control event = some next) :
    next.Within bound (count + 1) := by
  rcases Endpoint.step_cases stepped with ⟨endpoint, rfl, called⟩ |
    ⟨point, endpoint, reply, rfl, rfl, resumed⟩
  · cases event with
    | reply reply => cases called
    | _ => exact absurd accepts id
  · cases reply with
    | send sizeSended =>
        cases point with
        | send =>
            obtain ⟨message, rest, list, sendable, known, some_, left⟩ := within
            obtain ⟨answers, -⟩ := accepts message (by
              change message ∈ endpoint.manager.m_sendList.head?
              rw [list]
              rfl)
            rcases Endpoint.resume_send list resumed with ⟨-, rfl⟩ |
              ⟨nonnegative, ⟨-, rfl⟩ | ⟨open_, rfl⟩⟩
            · change count + 1 ≤ bound
              omega
            · change count + 1 ≤ bound
              omega
            · rcases answers some_ with rfl | ⟨positive, asked⟩
              · exact absurd nonnegative (by decide)
              · obtain ⟨after, -, less⟩ := sendable.onSend_cursor nonnegative asked
                have more : (message.onSend sizeSended).getSendCap ≠ 0 := by
                  intro nothing
                  rw [after.isEnd_iff.mpr ⟨known, nothing⟩] at open_
                  cases open_
                exact ⟨_, rest, rfl, after, known, by omega, by push_cast; omega⟩
        | _ => cases resumed
    | _ => exact absurd accepts id

end Control

namespace NetMessage

variable {message : NetMessage}

/-- A message of known size whose end is an `int` is sent out. -/
theorem Layout.sendsOut (layout : message.Layout) (known : 0 ≤ message.m_size) :
    message.ResetForSend.SendsOut := by
  intro endpoint rest
  obtain ⟨sendable, -, open_⟩ := layout.ResetForSend
  refine ⟨message.ResetForSend.getSendCap.toNat, fun events final meets reached => ?_⟩
  have header := layout.header
  have cap : message.ResetForSend.getSendCap = message.m_headSize + message.m_size := by
    rw [sendable.getSendCap_eq]
    change message.m_bufStartPos + message.m_headSize + message.m_size - message.m_bufStartPos = _
    omega
  have start : (endpoint.sendMessage message.ResetForSend rest).Within
      message.ResetForSend.getSendCap.toNat 0 := by
    rw [Endpoint.sendMessage, open_]
    exact ⟨_, rest, rfl, sendable, known, by omega, by omega⟩
  have within := Machine.invariant (fun count _ _ => count + 1)
    (fun count control => control.Within message.ResetForSend.getSendCap.toNat count)
    (fun _ _ _ _ accepts within stepped => within.step accepts stepped) 0 meets reached start
  rw [Machine.watch_count reached, Nat.zero_add] at within
  exact ⟨within.count_le, within.sending⟩

/-- A loop that asks for no bytes gets none, for ever. -/
theorem sendsForever_of_nothing (open_ : message.isEnd = false)
    (stays : message.onSend 0 = message) (nothing : message.getSendCap ≤ 0) :
    message.SendsForever := by
  intro endpoint rest count
  refine ⟨List.replicate count (.reply (.send 0)), endpoint.sendMessage message rest,
    List.length_replicate, ?_⟩
  have again : Endpoint.machine.step (endpoint.sendMessage message rest) (.reply (.send 0)) =
      some (endpoint.sendMessage message rest) := by
    simp only [Endpoint.sendMessage, open_, Bool.false_eq_true, ↓reduceIte]
    change some (Endpoint.sendMessage (message.onSend 0) rest _) = _
    rw [stays, Endpoint.sendMessage, open_]
    rfl
  have accepts : (endpoint.sendMessage message rest).Accepts (.reply (.send 0)) := by
    intro other member
    rw [Endpoint.sendMessage, open_] at member
    cases member
    exact ⟨fun some_ => absurd some_ nothing.not_gt, fun _ => rfl⟩
  induction count with
  | zero => exact ⟨trivial, rfl⟩
  | succ count ih =>
      rw [List.replicate_succ, Machine.meets_cons_of_step again, Machine.run_cons, again]
      exact ⟨⟨accepts, ih.1⟩, ih.2⟩

/-- A loop that goes on for ever after a `Send` does so before it. -/
theorem SendsForever.of_onSend {sizeSended : Int} (open_ : message.isEnd = false)
    (positive : 1 ≤ sizeSended) (asked : sizeSended ≤ message.getSendCap)
    (later : (message.onSend sizeSended).SendsForever) : message.SendsForever := by
  intro endpoint rest count
  cases count with
  | zero => exact ⟨[], _, rfl, trivial, rfl⟩
  | succ count =>
      let waiting : Endpoint := { endpoint with
        manager := { endpoint.manager with m_sendList := message :: rest } }
      obtain ⟨events, final, length, meets, reached⟩ := later waiting rest count
      have here : endpoint.sendMessage message rest = .waiting .send waiting := by
        rw [Endpoint.sendMessage, open_]
        rfl
      have stepped : Endpoint.machine.step (.waiting .send waiting) (.reply (.send sizeSended)) =
          some (waiting.sendMessage (message.onSend sizeSended) rest) := by
        change some (if sizeSended < 0 then _ else _) = _
        rw [if_neg (by omega)]
      refine ⟨.reply (.send sizeSended) :: events, final, by rw [List.length_cons, length], ?_, ?_⟩
      · rw [here, Machine.meets_cons_of_step stepped]
        refine ⟨?_, meets⟩
        intro other member
        cases member
        exact ⟨fun _ => Or.inr ⟨positive, asked⟩, fun nothing => by omega⟩
      · rw [here, Machine.run_cons, stepped]
        exact reached

/-- Once all that is asked for has been accepted, nothing is asked for. -/
theorem getSendCap_onSend_self (message : NetMessage) :
    (message.onSend message.getSendCap).getSendCap = 0 := by
  unfold onSend getSendCap
  simp only [int32]
  omega

theorem isEnd_of_negative (negative : message.m_size < 0) : message.isEnd = false := by
  rw [isEnd, if_pos negative]

/-- A cursor that is an `int` stays where it is. -/
theorem onSend_zero (low : -2147483648 ≤ message.m_curPos)
    (high : message.m_curPos < 2147483648) : message.onSend 0 = message := by
  rw [onSend, add_zero, int32_of_range low high]

/-- **The loop goes on for ever** on any other message. -/
theorem Laid.sendsForever (laid : message.Laid)
    (out : ¬ (0 ≤ message.m_size ∧ message.m_size + message.m_headSize < 2147483648)) :
    message.ResetForSend.SendsForever := by
  obtain ⟨size, layout⟩ := laid
  have still : message.ResetForSend.onSend 0 = message.ResetForSend := by
    apply onSend_zero
    · change -2147483648 ≤ message.m_bufStartPos
      omega
    · change message.m_bufStartPos < 2147483648
      omega
  by_cases known : 0 ≤ message.m_size
  · -- The end is beyond `int`: the sums of `isEnd` and `getSendCap` are negative.
    have start : message.m_bufStartPos = 0 := by omega
    have wrapped : int32 (message.m_size + message.m_headSize) < 0 := by
      unfold int32
      omega
    apply sendsForever_of_nothing ?_ still
    · change int32 (message.m_size - message.m_bufStartPos + message.m_bufStartPos +
        message.m_headSize) ≤ 0
      rw [sub_add_cancel]
      exact wrapped.le
    · change (if message.m_size < 0 then false else decide (message.m_bufStartPos =
        int32 (message.m_size + message.m_headSize + message.m_bufStartPos))) = false
      rw [if_neg (not_lt.mpr known), start, add_zero]
      exact decide_eq_false wrapped.ne'
  · have negative : message.ResetForSend.m_size < 0 := not_le.mp known
    by_cases nothing : message.ResetForSend.getSendCap ≤ 0
    · exact sendsForever_of_nothing (isEnd_of_negative negative) still nothing
    · -- What looks like the rest of a header goes out first.
      refine SendsForever.of_onSend (isEnd_of_negative negative) (not_le.mp nothing) le_rfl ?_
      have open_ : (message.ResetForSend.onSend message.ResetForSend.getSendCap).isEnd = false :=
        isEnd_of_negative negative
      apply sendsForever_of_nothing open_
      · apply onSend_zero
        · change -2147483648 ≤ int32 _
          unfold int32
          omega
        · change int32 _ < 2147483648
          unfold int32
          omega
      · exact (getSendCap_onSend_self message.ResetForSend).le

/-- **When the loop ends.** -/
theorem Laid.loop_ends_iff (laid : message.Laid) :
    message.ResetForSend.SendsOut ↔
      0 ≤ message.m_size ∧ message.m_size + message.m_headSize < 2147483648 := by
  constructor
  · intro sendsOut
    by_contra out
    exact (laid.sendsForever out).not_sendsOut sendsOut
  · rintro ⟨known, fits⟩
    obtain ⟨size, layout⟩ := laid
    have laidOut : message.Layout := ⟨by omega, by omega, by omega, by omega⟩
    exact laidOut.sendsOut known

end NetMessage

end EngSocket
