import EngSocket.Foundation.Peak
import EngSocket.Script.Soundness

/-!
# How many buffers are made

A buffer is never given back to the allocator. New ones are made, eleven at a time, when
a message is constructed and the pool is empty, that is when every buffer there is
belongs to a live message. So a process makes as many as it needs, rounded up: the least
multiple of eleven that is not less than the greatest number of messages which were
live at one time (`EngSocket.World.buffers_made`).
-/

namespace EngSocket

open Foundation

namespace Process

variable {process : Process}

theorem nextBuffer_pushNew (size : Int) (process : Process) :
    (process.pushNew size).nextBuffer = process.nextBuffer + 1 := by
  change (process.newMemBuffer size).2.nextBuffer = _
  rw [newMemBuffer_process]

/-- `Init` makes a batch of eleven buffers. -/
theorem nextBuffer_Init (process : Process) :
    process.Init.nextBuffer = process.nextBuffer + 11 := by
  have each (sizes : List Int) (process : Process) :
      (sizes.foldl pushNew process).nextBuffer = process.nextBuffer + sizes.length := by
    induction sizes generalizing process with
    | nil => rfl
    | cons size sizes ih =>
        rw [List.foldl_cons, ih, nextBuffer_pushNew, List.length_cons, Nat.add_assoc,
          Nat.add_comm 1]
  exact each _ process

/-- Where a buffer is large enough, `require` makes none. -/
theorem nextBuffer_require_message (generous : process.Generous) (sound : process.PoolSound) :
    (process.require 512).2.nextBuffer =
      if process.m_pool = [] then process.nextBuffer + 11 else process.nextBuffer := by
  obtain ⟨filled, fills, large, some_, made⟩ : ∃ filled : Process,
      (if process.m_pool.isEmpty then process.Init else process) = filled ∧
        (∀ buffer ∈ filled.m_pool, 512 ≤ buffer.m_size) ∧ filled.m_pool ≠ [] ∧
          filled.nextBuffer =
            if process.m_pool = [] then process.nextBuffer + 11 else process.nextBuffer := by
    by_cases empty : process.m_pool = []
    · refine ⟨process.Init, if_pos (List.isEmpty_iff.mpr empty), ?_, ?_, ?_⟩
      · exact fun buffer member => ((sound.Init generous.supplies) buffer member).size_bounds.1
      · obtain ⟨others, last, same⟩ : ∃ others last, process.Init = pushNew others last :=
          ⟨_, _, rfl⟩
        rw [same, pushNew_pool]
        exact List.concat_ne_nil _ _
      · rw [if_pos empty, nextBuffer_Init]
    · refine ⟨process, if_neg ?_, fun buffer member => (sound buffer member).size_bounds.1, empty,
        (if_neg empty).symm⟩
      rwa [List.isEmpty_iff]
  obtain ⟨buffer, pool, front⟩ := List.exists_cons_of_ne_nil some_
  have found : filled.m_pool.find? (fun buffer => (512 : Int) ≤ buffer.m_size) = some buffer := by
    rw [front]
    apply List.find?_cons_of_pos
    exact decide_eq_true (large buffer (front ▸ List.mem_cons_self))
  unfold Process.require
  rw [fills]
  simp only [found]
  exact made

/-- Every buffer is with a live message or in the pool. -/
theorem Accounts.nextBuffer_eq (accounts : process.Accounts) :
    process.nextBuffer = process.live.length + process.m_pool.length := by
  have parts := congrArg Multiset.card accounts.parts
  rw [Multiset.card_range] at parts
  rw [← parts]
  simp [ledger]

/-- No buffer was made and no message constructed. -/
structure Shrinks (before after : Process) : Prop where
  buffers : after.nextBuffer = before.nextBuffer
  live : after.live.length ≤ before.live.length

theorem Shrinks.refl (process : Process) : process.Shrinks process := ⟨rfl, le_rfl⟩

/-- Deleting in two steps is deleting. -/
theorem Shrinks.trans {first second third : Process} (earlier : first.Shrinks second)
    (later : second.Shrinks third) : first.Shrinks third :=
  ⟨later.buffers.trans earlier.buffers, later.live.trans earlier.live⟩

/-- `delete` makes no buffer and leaves no more messages. -/
theorem shrinks_delete (message : NetMessage) (process : Process) :
    process.Shrinks (message.delete process) := ⟨rfl, List.length_filter_le _ _⟩

theorem shrinks_deleteAll (messages : List NetMessage) (process : Process) :
    process.Shrinks (messages.foldl (fun process message => message.delete process) process) := by
  induction messages generalizing process with
  | nil => exact .refl process
  | cons message messages ih => exact (shrinks_delete message process).trans (ih _)

/-- What one step does to the process: it makes no message, or one and nothing else. -/
inductive Allots (before : Process) : Process → Prop
  | nothing {after : Process} (shrinks : before.Shrinks after) : Allots before after
  | message (descriptors : List Int) :
      Allots before (NetMessage.new 512 { before with descriptors }).2

/-- **One step.** As many buffers are made as are needed, rounded up. Where the pool is
empty all of them are in use, so that the peak is a multiple of eleven. -/
theorem Allots.buffers {before after : Process} (allots : before.Allots after)
    (accounts : before.Accounts) (after_accounts : after.Accounts) (generous : before.Generous)
    (sound : before.PoolSound) {highest : Nat} (above : before.live.length ≤ highest)
    (made : before.nextBuffer = 11 * ((highest + 10) / 11)) :
    after.nextBuffer = 11 * ((max highest after.live.length + 10) / 11) := by
  cases allots with
  | nothing shrinks => rw [shrinks.buffers, max_eq_left (shrinks.live.trans above), made]
  | message descriptors =>
      let current : Process := { before with descriptors }
      have buffers : (NetMessage.new 512 current).2.nextBuffer =
          if before.m_pool = [] then before.nextBuffer + 11 else before.nextBuffer :=
        @nextBuffer_require_message current generous sound
      have live : (NetMessage.new 512 current).2.live.length = before.live.length + 1 := by
        change ((current.require 512).2.live ++ [_]).length = _
        rw [(require_same 512 current).live, List.length_append, List.length_singleton]
      have before_sum := accounts.nextBuffer_eq
      have after_sum := after_accounts.nextBuffer_eq
      change (NetMessage.new 512 current).2.nextBuffer =
        11 * ((max highest (NetMessage.new 512 current).2.live.length + 10) / 11)
      change (NetMessage.new 512 current).2.nextBuffer =
        (NetMessage.new 512 current).2.live.length + _ at after_sum
      by_cases empty : before.m_pool = []
      · rw [if_pos empty] at buffers
        rw [empty, List.length_nil] at before_sum
        omega
      · rw [if_neg empty] at buffers
        omega

end Process

/-! ## Steps -/

namespace Endpoint

variable {endpoint : Endpoint}

theorem SameMessages.shrinks {after : Endpoint} (same : endpoint.SameMessages after) :
    endpoint.process.Shrinks after.process := by
  obtain ⟨-, -, -, descriptors, process⟩ := same
  rw [process]
  exact ⟨rfl, le_rfl⟩

/-- `CloseConnection` deletes only. -/
theorem shrinks_CloseConnection (endpoint : Endpoint) :
    endpoint.process.Shrinks endpoint.CloseConnection.process :=
  (endpoint.Close_same.shrinks.trans (Process.shrinks_deleteAll _ _)).trans
    (Process.shrinks_deleteAll _ _)

/-- A call constructs no message. -/
theorem call_shrinks {event : Event} {control : Control}
    (called : endpoint.call event = some control) :
    endpoint.process.Shrinks control.endpoint.process := by
  cases event with
  | Connect addr port dial =>
      obtain ⟨result, after, -, rfl, effect⟩ := call_Connect called
      split at effect
      · exact effect.shrinks
      · exact endpoint.shrinks_CloseConnection.trans effect.shrinks
  | ReConnect dial =>
      obtain ⟨after, -, rfl, effect⟩ := call_ReConnect called
      split at effect
      · rw [effect]
        exact .refl _
      · exact endpoint.shrinks_CloseConnection.trans effect.shrinks
  | Close =>
      cases called
      exact endpoint.Close_same.shrinks
  | CloseConnection =>
      cases called
      exact endpoint.shrinks_CloseConnection
  | SendMsg message =>
      cases called
      exact .refl _
  | InitEncrypt =>
      cases called
      exact .refl _
  | LoadMsg =>
      rcases call_LoadMsg called with ⟨-, rfl⟩ | ⟨message, rest, -, rfl⟩
      · exact .refl _
      · exact .refl _
  | Update dt =>
      rcases call_Update called with rfl | ⟨rfl, -⟩
      · exact .refl _
      · exact .refl _
  | reply reply => cases called

/-- A message that is received next is the last one or a new one. -/
theorem SameMessages.allots_pickMessage {after : Endpoint} (same : endpoint.SameMessages after) :
    endpoint.process.Allots after.pickMessage.process := by
  have pushed : endpoint.process.Allots after.pushNewMessage.process := by
    obtain ⟨-, -, -, descriptors, process⟩ := same
    change endpoint.process.Allots (NetMessage.new 512 after.process).2
    rw [process]
    exact .message descriptors
  unfold pickMessage
  split
  · split
    · exact pushed
    · exact .nothing same.shrinks
  · exact pushed

/-- **An answer** makes one message at most. -/
theorem resume_allots {point : Point} {reply : Reply} {control : Control}
    (armed : (Control.waiting point endpoint).Armed)
    (resumed : endpoint.resume point reply = some control) :
    endpoint.process.Allots control.endpoint.process := by
  obtain ⟨-, about⟩ := armed
  rcases resume_cases resumed with ⟨answer, rfl, continues⟩ | ⟨sizeSended, rfl, rfl⟩ |
    ⟨bytes, rfl, rfl, nonempty⟩ | ⟨rfl, ends⟩
  · cases continues with
    | returned same => exact .nothing same.shrinks
    | crashed same => exact .nothing same.shrinks
    | recv same => exact same.allots_pickMessage
    | send same => exact .nothing same.shrinks
    | sent same => exact .nothing (same.shrinks.trans (Process.shrinks_delete _ _))
  · obtain ⟨message, rest, front, -⟩ := about
    rcases resume_send front resumed with ⟨-, rfl⟩ | ⟨-, ⟨-, rfl⟩ | ⟨-, rfl⟩⟩
    · exact .nothing (OnError_same .SendZeroByte endpoint).shrinks
    · exact .nothing (Process.shrinks_delete _ _)
    · exact .nothing (.refl _)
  · obtain ⟨older, message, back, -⟩ := about
    rcases resume_recv back nonempty resumed with ⟨reason, -, rfl⟩ |
      ⟨filled, stored, ⟨reason, -, rfl⟩ | ⟨after, process, received, rfl⟩⟩
    · exact .nothing (.refl _)
    · exact .nothing (.refl _)
    · obtain ⟨requests, rfl⟩ := (NetMessage.received_keeps stored received).requests
      exact .nothing ⟨rfl, le_rfl⟩
  · obtain ⟨older, message, back, -⟩ := about
    rw [resume_recv_closed back ends resumed]
    exact .nothing (OnError_same .RecvZeroByte endpoint).shrinks

end Endpoint

/-- So does every step of a manager. -/
theorem Control.step_allots {control next : Control} {event : Event} (armed : control.Armed)
    (stepped : Endpoint.machine.step control event = some next) :
    control.endpoint.process.Allots next.endpoint.process := by
  rcases Endpoint.step_cases stepped with ⟨endpoint, rfl, called⟩ |
    ⟨point, endpoint, reply, rfl, rfl, resumed⟩
  · exact .nothing (Endpoint.call_shrinks called)
  · exact Endpoint.resume_allots armed resumed

namespace World

variable {world next : World}

/-- A method of a message makes none. -/
theorem onMessage_shrinks {lua : Nat}
    {method : NetMessage → Process → Except Abort (NetMessage × Process)}
    (keeps : ∀ message process after left, method message process = .ok (after, left) →
      message.Keeps process after left)
    (done : world.onMessage lua method = some next) : world.process.Shrinks next.process := by
  obtain ⟨message, -, done⟩ := Option.bind_eq_some_iff.mp done
  obtain ⟨⟨after, left⟩, returned, done⟩ := Option.bind_eq_some_iff.mp done
  obtain rfl := Option.some.inj done
  obtain ⟨requests, rfl⟩ :=
    (keeps message world.process after left (toOption_eq_some returned)).requests
  exact ⟨rfl, le_rfl⟩

/-- **The script** makes one message at most at a time. -/
theorem script_allots {event : WorldEvent} (done : world.script event = some next) :
    world.process.Allots next.process := by
  cases event with
  | newManager =>
      cases done
      exact .nothing (.refl _)
  | newLuaMsg =>
      cases done
      exact .nothing (.refl _)
  | gcLuaMsg lua =>
      obtain ⟨⟨message⟩, -, done⟩ := Option.bind_eq_some_iff.mp done
      obtain rfl := Option.some.inj done
      cases message with
      | none => exact .nothing (.refl _)
      | some message => exact .nothing (Process.shrinks_delete message world.process)
  | CreateNewMessage lua =>
      obtain ⟨luaMsg, -, done⟩ := Option.bind_eq_some_iff.mp done
      obtain rfl := Option.some.inj done
      exact .message world.process.descriptors
  | LoadMsg lua manager =>
      obtain ⟨luaMsg, -, done⟩ := Option.bind_eq_some_iff.mp done
      obtain ⟨current, -, done⟩ := Option.bind_eq_some_iff.mp done
      obtain ⟨loaded, -, done⟩ := Option.bind_eq_some_iff.mp done
      obtain rfl := Option.some.inj done
      exact .nothing (.refl _)
  | SendMsg lua manager =>
      obtain ⟨message, -, done⟩ := Option.bind_eq_some_iff.mp done
      obtain ⟨current, -, done⟩ := Option.bind_eq_some_iff.mp done
      obtain rfl := Option.some.inj done
      exact .nothing (.refl _)
  | BeginForWrite lua =>
      exact .nothing (onMessage_shrinks (onlyMessage_keeps NetMessage.beginForWrite_keeps) done)
  | WriteRaw lua buf =>
      exact .nothing (onMessage_shrinks
        (fun _ _ _ _ returned => (NetMessage.wRaw_writes returned).toKeeps) done)
  | EndForWrite lua =>
      exact .nothing (onMessage_shrinks
        (fun _ _ _ _ returned => (NetMessage.endForWrite_keeps returned).1) done)
  | GetSize lua =>
      exact .nothing (onMessage_shrinks (onlyMessage_keeps NetMessage.Keeps.refl) done)
  | ReadRaw lua size =>
      exact .nothing (onMessage_shrinks (onlyMessage_keeps (NetMessage.rRaw_keeps size))
        (ReadRaw_cases done).2)
  | overlongConnect manager addr => cases done
  | Restart manager =>
      obtain ⟨current, -, done⟩ := Option.bind_eq_some_iff.mp done
      obtain rfl := Option.some.inj done
      exact .nothing (Endpoint.shrinks_CloseConnection
        { process := world.process, manager := current })
  | manager manager event => cases done

/-- So does every step of the process. -/
theorem step_allots {event : WorldEvent} (armed : world.Armed)
    (stepped : machine.step world event = some next) : world.process.Allots next.process := by
  rcases step_cases stepped with ⟨manager, call, rfl, done⟩ | ⟨-, done⟩
  · obtain ⟨current, control, after, -, same, ready, -, moved, settled⟩ := manage_cases armed done
    obtain ⟨busy, rfl, -⟩ := settle_cases settled
    have allots := Control.step_allots ready moved
    rw [same] at allots
    exact allots
  · exact script_allots done

/-- How many messages are live. -/
def liveMessages (world : World) : Nat := world.process.live.length

/-- A process that has made the buffers that the peak of its live messages needs. -/
structure Thrifty (highest : Nat) (world : World) : Prop where
  sound : world.Sound
  armed : world.Armed
  owned : ∃ leaked, world.Owned leaked
  above : world.liveMessages ≤ highest
  made : world.process.nextBuffer = 11 * ((highest + 10) / 11)

/-- A batch is made only when all the buffers are in use. -/
theorem Thrifty.step {highest : Nat} {event : WorldEvent} (thrifty : world.Thrifty highest)
    (stepped : machine.step world event = some next) :
    next.Thrifty (max highest next.liveMessages) := by
  obtain ⟨sound, armed, ⟨leaked, owned⟩, above, made⟩ := thrifty
  have after := owned.step armed stepped
  exact ⟨sound.step armed stepped, armed.step stepped, ⟨_, after⟩, le_max_right _ _,
    (step_allots armed stepped).buffers owned.accounts after.accounts sound.generous sound.pool
      above made⟩

/-- **As many as needed.** In every run in which no request is refused the number of
buffers ever made is the least multiple of eleven that is not less than the greatest
number of messages live at one time. -/
theorem buffers_made (junk : Nat → Memory UInt8) {events : List WorldEvent}
    (reached : machine.run (initial (fun _ => true) junk) events = some world) :
    world.process.nextBuffer =
      11 * ((machine.peak liveMessages (initial (fun _ => true) junk) events + 10) / 11) := by
  have start : (initial (fun _ => true) junk).Thrifty 0 :=
    ⟨sound_initial junk, armed_initial _ junk, ⟨0, Process.accounts_initial _ junk, rfl⟩, le_rfl,
      rfl⟩
  have kept : ∀ highest world event next, Thrifty highest world →
      machine.step world event = some next → Thrifty (max highest next.liveMessages) next :=
    fun _ _ _ _ thrifty stepped => thrifty.step stepped
  exact (Machine.peak_invariant kept reached start).made

/-- One message after the other is made and deleted; one buffer is enough for them. -/
theorem buffers_made_recycling :
    ∃ world, machine.run (initial (fun _ => true) fun _ _ => 0) recycling = some world ∧
      world.process.nextBuffer = 11 := by
  have ran : (machine.run (initial (fun _ => true) fun _ _ => 0) recycling).isSome = true := by
    decide +kernel
  obtain ⟨world, reached⟩ := Option.isSome_iff_exists.mp ran
  have highest : machine.peak liveMessages (initial (fun _ => true) fun _ _ => 0) recycling = 1 := by
    decide +kernel
  exact ⟨world, reached, by rw [buffers_made _ reached, highest]⟩

end World

end EngSocket
