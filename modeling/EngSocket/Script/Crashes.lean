import EngSocket.Foundation.Progress
import EngSocket.Message.Writing
import EngSocket.Reception.Crashes
import EngSocket.Script.Soundness

/-!
# What crashes the process

In a process whose requests are granted a run of calls and answers that can happen
goes through exactly if none of them is one of these: a method called through a
`CLuaMsg` that has no message; a `LoadMsg` of which the manager has nothing to give;
a `WriteRaw` from in front of the block or to beyond `2 ^ 30` bytes; a `ReadRaw` of a
negative size; a `Connect` with a host name of 128 bytes or more; an answer of `select`
or `recv` that crashes its manager (`EngSocket.World.crashFree_iff`). A read beyond the
block is not among them: `ReadRaw` returns what is there.
-/

namespace EngSocket

open Foundation

namespace NetMessage

variable {message : NetMessage} {process : Process}

/-- A number of bytes has room behind the cursor, or room can be made. No bytes need
none, if only `checkBufSize` comes to an end. -/
def HasRoom (count : Nat) (message : NetMessage) : Prop :=
  if count = 0 then int32 message.m_curPos ≤ 1073741824
  else 0 ≤ message.m_curPos ∧ message.m_curPos + count ≤ 1073741824

instance (count : Nat) (message : NetMessage) : Decidable (message.HasRoom count) :=
  inferInstanceAs (Decidable (if count = 0 then int32 message.m_curPos ≤ 1073741824 else
    0 ≤ message.m_curPos ∧ message.m_curPos + count ≤ 1073741824))

/-- So many bytes are left between the cursor and the end of the block. -/
def HasLeft (size : Int) (message : NetMessage) : Prop :=
  size = 0 ∨ 0 < size ∧ 0 ≤ message.m_curPos ∧
    message.m_curPos + size ≤ message.m_buffer.m_size

instance (size : Int) (message : NetMessage) : Decidable (message.HasLeft size) :=
  inferInstanceAs (Decidable (_ ∨ _))

/-- **Writing nothing** moves nothing but the end of the block. -/
theorem wRaw_nil (sound : message.m_buffer.Sound) (generous : process.Generous)
    (room : message.HasRoom 0) :
    ∃ grown requests,
      message.wRaw [] process =
          .ok ({ message with m_buffer := grown, m_curPos := int32 message.m_curPos },
            { process with requests }) ∧
        message.m_buffer.Grown grown := by
  have bounded : int32 (message.m_curPos + 0) ≤ 1073741824 := by
    rw [add_zero]
    exact room
  obtain ⟨grown, requests, checked, -, extension, -⟩ :=
    checkBufSize_of_le sound generous bounded
  refine ⟨grown, requests, ?_, extension⟩
  unfold wRaw
  simp only [List.length_nil, Nat.cast_zero, add_zero, checked, bind, Except.bind]
  rfl

/-- **What is written** without a crash. A sum that overflows makes no room, so that
the bytes do not fit. -/
theorem wRaw_returns_iff (sound : message.m_buffer.Sound) (generous : process.Generous)
    (buf : List UInt8) :
    (∃ after left, message.wRaw buf process = .ok (after, left)) ↔ message.HasRoom buf.length := by
  cases buf with
  | nil =>
      constructor
      · rintro ⟨after, left, done⟩
        obtain ⟨checked, check, -⟩ := bind_eq_ok done
        by_contra crowded
        have beyond : 1073741824 < int32 (message.m_curPos + 0) := by
          rw [add_zero]
          exact not_le.mp crowded
        cases check.symm.trans (checkBufSize_of_gt sound beyond process)
      · intro room
        obtain ⟨grown, requests, written, -⟩ := wRaw_nil sound generous room
        exact ⟨_, _, written⟩
  | cons byte rest =>
      constructor
      · rintro ⟨after, left, done⟩
        obtain ⟨⟨checked, middle⟩, check, done⟩ := bind_eq_ok done
        obtain ⟨stored, store, -⟩ := bind_eq_ok done
        have bounds := ((checkBufSize_writes check).sound sound).size_bounds
        have inside := (storeAtCursor_ok store).1
        rw [checkBufSize_same check] at inside
        exact ⟨inside.1, inside.2.trans bounds.2⟩
      · rintro ⟨low, bounded⟩
        obtain ⟨grown, requests, written, -⟩ :=
          wRaw_appends (byte :: rest) message process sound.roomy generous low bounded
        exact ⟨_, _, written⟩

/-- `endForWrite` needs nothing: the header lies in the first six bytes of the block. -/
theorem endForWrite_returns (roomy : message.m_buffer.Roomy) (process : Process) :
    ∃ after left, message.endForWrite process = .ok (after, left) := by
  have least := roomy.least
  have ranged := roomy.ranged
  unfold endForWrite
  simp only [bind, Except.bind]
  split
  · rw [wUShort_eq (by simp only; omega) (by simp only; omega) (by exact ranged)]
    simp only
    rw [wUInt_eq (by simp only [put, length_bigEndianBytes]; omega)
      (by simp only [put, length_bigEndianBytes]; omega) (by exact ranged)]
    exact ⟨_, _, rfl⟩
  · rw [wUShort_eq (by simp only; omega) (by simp only; omega) (by exact ranged)]
    exact ⟨_, _, rfl⟩

end NetMessage

namespace World

/-- Where a manager stands, if it exists and no other one is in the middle of an
`Update`. -/
def standing (manager : Nat) (world : World) : Option Control := do
  let current ← world.managers[manager]?
  world.control manager { process := world.process, manager := current }

/-- The event can happen: a script calls objects that exist, while no `Update` is in
progress, and the operating system answers what it was asked. -/
def Expects (world : World) : WorldEvent → Prop
  | .newManager | .newLuaMsg => world.busy = none
  | .gcLuaMsg lua | .CreateNewMessage lua | .BeginForWrite lua | .WriteRaw lua _
  | .EndForWrite lua | .GetSize lua | .ReadRaw lua _ =>
      world.busy = none ∧ (world.luaMsg lua).isSome = true
  | .LoadMsg lua manager | .SendMsg lua manager =>
      world.busy = none ∧ (world.luaMsg lua).isSome = true ∧ manager < world.managers.length
  | .overlongConnect manager _ | .Restart manager =>
      world.busy = none ∧ manager < world.managers.length
  | .manager manager event =>
      event.ofManager = true ∧ ∃ control ∈ world.standing manager, control.expects event = true

/-- The event is none of those that crash. -/
def Survives (world : World) : WorldEvent → Prop
  | .newManager | .newLuaMsg | .gcLuaMsg _ | .CreateNewMessage _ | .Restart _ => True
  | .LoadMsg _ manager => ∀ current ∈ world.managers[manager]?, current.m_recvList ≠ []
  | .SendMsg lua _ | .BeginForWrite lua | .EndForWrite lua | .GetSize lua =>
      (world.message lua).isSome = true
  | .WriteRaw lua buf =>
      ∃ message ∈ world.message lua, message.HasRoom (buf.length % 4294967296)
  | .ReadRaw lua size => (world.message lua).isSome = true ∧ 0 ≤ size
  | .overlongConnect _ _ => False
  | .manager manager event => ∀ control ∈ world.standing manager, control.Survives event

variable {world : World}

theorem standing_cases {manager : Nat} {control : Control} (armed : world.Armed)
    (stands : world.standing manager = some control) :
    ∃ current, world.managers[manager]? = some current ∧
      control.endpoint = { process := world.process, manager := current } ∧ control.Armed := by
  obtain ⟨current, here, stands⟩ := Option.bind_eq_some_iff.mp stands
  refine ⟨current, here, ?_⟩
  unfold World.control at stands
  split at stands
  · cases stands
    exact ⟨rfl, trivial⟩
  · next running point busy =>
      split at stands
      · next same =>
          cases stands
          exact ⟨rfl, armed running point current busy (same ▸ here)⟩
      · cases stands

theorem manage_eq {manager : Nat} {event : Event} (own : event.ofManager = true) (world : World) :
    world.manage manager event = (world.standing manager).bind fun control =>
      (Endpoint.machine.step control event).bind fun next => world.settle manager next := by
  unfold World.manage World.standing
  rw [if_pos own]
  exact (Option.bind_assoc _ _ _).symm

/-- What happens to a manager is a step from where it stands. -/
theorem manage_standing {manager : Nat} {event : Event} {next : World} (armed : world.Armed)
    (done : world.manage manager event = some next) :
    ∃ current control after, world.managers[manager]? = some current ∧
      world.standing manager = some control ∧
        control.endpoint = { process := world.process, manager := current } ∧ control.Armed ∧
          event.ofManager = true ∧ Endpoint.machine.step control event = some after ∧
            world.settle manager after = some next := by
  have own : event.ofManager = true := by
    by_contra other
    rw [World.manage, if_neg other] at done
    cases done
  rw [manage_eq own] at done
  obtain ⟨control, stands, done⟩ := Option.bind_eq_some_iff.mp done
  obtain ⟨after, stepped, settled⟩ := Option.bind_eq_some_iff.mp done
  obtain ⟨current, here, same, ready⟩ := standing_cases armed stands
  exact ⟨current, control, after, here, stands, same, ready, own, stepped, settled⟩

/-- What is stored back is what did not crash. -/
theorem isSome_settle_iff {manager : Nat} {control : Control} :
    (world.settle manager control).isSome = true ↔ ¬ control.IsAborted := by
  cases control with
  | aborted reason endpoint =>
      exact iff_of_false Bool.false_ne_true fun returned => returned trivial
  | _ => exact iff_of_true rfl id

theorem isSome_manage_iff {manager : Nat} {event : Event} (sound : world.Sound)
    (armed : world.Armed) (expects : world.Expects (.manager manager event)) :
    (world.manage manager event).isSome = true ↔ world.Survives (.manager manager event) := by
  obtain ⟨own, control, stands, expects⟩ := expects
  rw [Option.mem_def] at stands
  obtain ⟨current, here, same, ready⟩ := standing_cases armed stands
  have endpoint : control.Sound := by
    unfold Control.Sound
    rw [same]
    exact sound.endpoint here
  have survives : world.Survives (.manager manager event) ↔ control.Survives event := by
    change (∀ control ∈ world.standing manager, control.Survives event) ↔ _
    rw [stands]
    simp only [Option.mem_some_iff, forall_eq']
  have managed : world.manage manager event =
      (Endpoint.machine.step control event).bind fun next => world.settle manager next := by
    rw [manage_eq own, stands, Option.bind_some]
  rw [survives, ← Control.returns_iff endpoint ready expects, managed]
  cases stepped : Endpoint.machine.step control event with
  | none =>
      apply iff_of_false Bool.false_ne_true
      rintro ⟨next, same, -⟩
      cases same
  | some next =>
      rw [Option.bind_some, isSome_settle_iff]
      constructor
      · exact fun returned => ⟨next, rfl, returned⟩
      · rintro ⟨other, same, returned⟩
        exact Option.some.inj same ▸ returned

/-- A method called through a `CLuaMsg` returns exactly if the `CLuaMsg` has a message
on which it does. -/
theorem isSome_onMessage_iff {lua : Nat}
    {method : NetMessage → Process → Except Abort (NetMessage × Process)} :
    (world.onMessage lua method).isSome = true ↔
      ∃ message ∈ world.message lua, ∃ after left,
        method message world.process = .ok (after, left) := by
  constructor
  · intro taken
    obtain ⟨next, done⟩ := Option.isSome_iff_exists.mp taken
    obtain ⟨message, holds, done⟩ := Option.bind_eq_some_iff.mp done
    obtain ⟨⟨after, left⟩, returned, -⟩ := Option.bind_eq_some_iff.mp done
    exact ⟨message, holds, after, left, toOption_eq_some returned⟩
  · rintro ⟨message, holds, after, left, returned⟩
    have done : world.onMessage lua method =
        some (setMessage lua (some after) { world with process := left }) := by
      unfold World.onMessage
      rw [Option.mem_def.mp holds]
      simp only [bind, Option.bind_some, returned, Except.toOption]
      rfl
    rw [done]
    rfl

/-- A method that returns on every message with a sound buffer. -/
theorem isSome_onMessage_iff_of_returns {lua : Nat}
    {method : NetMessage → Process → Except Abort (NetMessage × Process)} (sound : world.Sound)
    (returns : ∀ message, message.m_buffer.Sound →
      ∃ after left, method message world.process = .ok (after, left)) :
    (world.onMessage lua method).isSome = true ↔ (world.message lua).isSome = true := by
  rw [isSome_onMessage_iff, Option.isSome_iff_exists]
  constructor
  · rintro ⟨message, holds, -⟩
    exact ⟨message, holds⟩
  · rintro ⟨message, holds⟩
    exact ⟨message, holds, returns message (sound.message holds)⟩

theorem exists_manager {manager : Nat} (made : manager < world.managers.length) :
    ∃ current, world.managers[manager]? = some current :=
  ⟨_, List.getElem?_eq_getElem made⟩

theorem isSome_script_iff {event : WorldEvent} (sound : world.Sound)
    (expects : world.Expects event) (script : ∀ manager call, event ≠ .manager manager call) :
    (world.script event).isSome = true ↔ world.Survives event := by
  cases event with
  | newManager => exact iff_of_true rfl trivial
  | newLuaMsg => exact iff_of_true rfl trivial
  | gcLuaMsg lua =>
      obtain ⟨luaMsg, slot⟩ := Option.isSome_iff_exists.mp expects.2
      refine iff_of_true ?_ trivial
      simp only [World.script, World.gcLuaMsg, slot, bind, Option.bind_some]
      rfl
  | CreateNewMessage lua =>
      obtain ⟨luaMsg, slot⟩ := Option.isSome_iff_exists.mp expects.2
      refine iff_of_true ?_ trivial
      simp only [World.script, World.CreateNewMessage, slot, bind, Option.bind_some]
      rfl
  | LoadMsg lua manager =>
      obtain ⟨luaMsg, slot⟩ := Option.isSome_iff_exists.mp expects.2.1
      obtain ⟨current, here⟩ := exists_manager expects.2.2
      have survives : world.Survives (.LoadMsg lua manager) ↔ current.m_recvList ≠ [] := by
        change (∀ current ∈ world.managers[manager]?, current.m_recvList ≠ []) ↔ _
        rw [here]
        simp only [Option.mem_some_iff, forall_eq']
      rw [survives]
      simp only [World.script, World.LoadMsg, slot, here, bind, Option.bind_some]
      unfold Endpoint.LoadMsg Endpoint.getMsg
      cases front : current.m_recvList with
      | nil => exact iff_of_false Bool.false_ne_true fun some_ => some_ rfl
      | cons message rest => exact iff_of_true rfl (List.cons_ne_nil message rest)
  | SendMsg lua manager =>
      obtain ⟨current, here⟩ := exists_manager expects.2.2
      change _ ↔ (world.message lua).isSome = true
      simp only [World.script, World.SendMsg, here, bind, Option.bind_some]
      cases world.message lua with
      | none => exact Iff.rfl
      | some message => exact iff_of_true rfl rfl
  | BeginForWrite lua =>
      exact isSome_onMessage_iff_of_returns sound fun _ _ => ⟨_, _, rfl⟩
  | WriteRaw lua buf =>
      have length : (buf.take (buf.length % 4294967296)).length = buf.length % 4294967296 := by
        rw [List.length_take]
        exact min_eq_left (Nat.mod_le _ _)
      refine isSome_onMessage_iff.trans ?_
      constructor
      · rintro ⟨message, holds, returned⟩
        have room :=
          (NetMessage.wRaw_returns_iff (sound.message holds) sound.generous _).mp returned
        exact ⟨message, holds, length ▸ room⟩
      · rintro ⟨message, holds, room⟩
        rw [← length] at room
        exact ⟨message, holds,
          (NetMessage.wRaw_returns_iff (sound.message holds) sound.generous _).mpr room⟩
  | EndForWrite lua =>
      exact isSome_onMessage_iff_of_returns sound fun message buffer =>
        message.endForWrite_returns buffer.roomy world.process
  | GetSize lua => exact isSome_onMessage_iff_of_returns sound fun _ _ => ⟨_, _, rfl⟩
  | ReadRaw lua size =>
      change (world.ReadRaw lua size).isSome = true ↔
        (world.message lua).isSome = true ∧ 0 ≤ size
      unfold World.ReadRaw
      split
      · next nonnegative =>
          rw [and_iff_left nonnegative]
          exact isSome_onMessage_iff_of_returns sound fun _ _ => ⟨_, _, rfl⟩
      · next negative => exact iff_of_false Bool.false_ne_true fun survives => negative survives.2
  | overlongConnect manager addr => exact iff_of_false Bool.false_ne_true id
  | Restart manager =>
      obtain ⟨current, here⟩ := exists_manager expects.2
      refine iff_of_true ?_ trivial
      simp only [World.script, World.Restart, here, bind, Option.bind_some]
      rfl
  | manager manager event => exact absurd rfl (script manager event)

/-- **What the process survives**, at any state that a run can reach. -/
theorem isSome_step_iff {event : WorldEvent} (sound : world.Sound) (armed : world.Armed)
    (expects : world.Expects event) :
    (machine.step world event).isSome = true ↔ world.Survives event := by
  have script (idle : world.busy = none) (others : ∀ manager call, event ≠ .manager manager call) :
      (if world.busy.isNone then world.script event else none).isSome = true ↔
        world.Survives event := by
    rw [idle]
    exact isSome_script_iff sound expects others
  cases event with
  | manager manager event => exact isSome_manage_iff sound armed expects
  | newManager => exact script expects fun _ _ => WorldEvent.noConfusion
  | newLuaMsg => exact script expects fun _ _ => WorldEvent.noConfusion
  | _ => exact script expects.1 fun _ _ => WorldEvent.noConfusion

instance (world : World) : DecidablePred world.Expects
  | .newManager | .newLuaMsg =>
      decidable_of_iff (world.busy.isNone = true) Option.isNone_iff_eq_none
  | .gcLuaMsg lua | .CreateNewMessage lua | .BeginForWrite lua | .WriteRaw lua _
  | .EndForWrite lua | .GetSize lua | .ReadRaw lua _ =>
      decidable_of_iff (world.busy.isNone = true ∧ (world.luaMsg lua).isSome = true)
        (and_congr_left' Option.isNone_iff_eq_none)
  | .LoadMsg lua manager | .SendMsg lua manager =>
      decidable_of_iff (world.busy.isNone = true ∧ (world.luaMsg lua).isSome = true ∧
          manager < world.managers.length)
        (and_congr_left' Option.isNone_iff_eq_none)
  | .overlongConnect manager _ | .Restart manager =>
      decidable_of_iff (world.busy.isNone = true ∧ manager < world.managers.length)
        (and_congr_left' Option.isNone_iff_eq_none)
  | .manager manager event => inferInstanceAs (Decidable (event.ofManager = true ∧
      ∃ control ∈ world.standing manager, control.expects event = true))

instance (world : World) : DecidablePred world.Survives
  | .newManager | .newLuaMsg | .gcLuaMsg _ | .CreateNewMessage _ | .Restart _ => .isTrue trivial
  | .LoadMsg _ manager =>
      decidable_of_iff (∀ current ∈ world.managers[manager]?, current.m_recvList.isEmpty = false)
        (forall₂_congr fun _ _ => List.isEmpty_eq_false_iff)
  | .SendMsg lua _ | .BeginForWrite lua | .EndForWrite lua | .GetSize lua =>
      inferInstanceAs (Decidable ((world.message lua).isSome = true))
  | .WriteRaw lua buf => inferInstanceAs (Decidable
      (∃ message ∈ world.message lua, message.HasRoom (buf.length % 4294967296)))
  | .ReadRaw lua size =>
      inferInstanceAs (Decidable ((world.message lua).isSome = true ∧ 0 ≤ size))
  | .overlongConnect _ _ => .isFalse id
  | .manager manager event => inferInstanceAs (Decidable
      (∀ control ∈ world.standing manager, control.Survives event))

/-- The script is careful: it calls `LoadMsg` when a message is pending, the other methods
on a `CLuaMsg` that has a message, writes no more than there is room for, reads no more
than is left, and has host names that fit. -/
def Careful (world : World) : WorldEvent → Prop
  | .LoadMsg _ manager => ∀ current ∈ world.managers[manager]?,
      Endpoint.HasPendingMsg { process := world.process, manager := current } = true
  | .SendMsg lua _ | .BeginForWrite lua | .EndForWrite lua | .GetSize lua =>
      (world.message lua).isSome = true
  | .WriteRaw lua buf =>
      ∃ message ∈ world.message lua, message.HasRoom (buf.length % 4294967296)
  | .ReadRaw lua size => ∃ message ∈ world.message lua, message.HasLeft size
  | .overlongConnect _ _ => False
  | _ => True

/-- The peers and the network behave. -/
def Polite (world : World) : WorldEvent → Prop
  | .manager manager event => ∀ control ∈ world.standing manager, control.Polite event
  | _ => True

/-- Every message that a manager has received is somewhere in its reception. -/
def InReception (world : World) : Prop :=
  ∀ manager ∈ world.managers, ∀ message ∈ manager.m_recvList, message.InReception

variable {next : World}

/-- A script puts nothing in a receive list. -/
theorem script_recvList {event : WorldEvent} (done : world.script event = some next) :
    ∀ manager ∈ next.managers, ∀ message ∈ manager.m_recvList,
      ∃ former ∈ world.managers, message ∈ former.m_recvList := by
  have same {after : World} (kept : after.managers = world.managers) :
      ∀ manager ∈ after.managers, ∀ message ∈ manager.m_recvList,
        ∃ former ∈ world.managers, message ∈ former.m_recvList :=
    fun manager member message listed => ⟨manager, kept ▸ member, listed⟩
  have replaced {number : Nat} {other : CConnectionManager}
      (from_ : ∀ message ∈ other.m_recvList,
        ∃ former ∈ world.managers, message ∈ former.m_recvList) :
      ∀ manager ∈ world.managers.set number other, ∀ message ∈ manager.m_recvList,
        ∃ former ∈ world.managers, message ∈ former.m_recvList := by
    intro manager member message listed
    rcases List.mem_or_eq_of_mem_set member with old | rfl
    · exact ⟨manager, old, listed⟩
    · exact from_ message listed
  have onMessage (lua : Nat) (method : NetMessage → Process → Except Abort (NetMessage × Process))
      (done : world.onMessage lua method = some next) : next.managers = world.managers := by
    obtain ⟨message, -, done⟩ := Option.bind_eq_some_iff.mp done
    obtain ⟨returned, -, done⟩ := Option.bind_eq_some_iff.mp done
    cases done
    rfl
  cases event with
  | newManager =>
      cases done
      intro manager member message listed
      rcases List.mem_append.mp member with old | new
      · exact ⟨manager, old, listed⟩
      · rw [List.mem_singleton.mp new] at listed
        cases listed
  | newLuaMsg =>
      cases done
      exact same rfl
  | gcLuaMsg lua =>
      obtain ⟨luaMsg, -, done⟩ := Option.bind_eq_some_iff.mp done
      cases done
      exact same rfl
  | CreateNewMessage lua =>
      obtain ⟨luaMsg, -, done⟩ := Option.bind_eq_some_iff.mp done
      cases done
      exact same rfl
  | LoadMsg lua number =>
      obtain ⟨luaMsg, -, done⟩ := Option.bind_eq_some_iff.mp done
      obtain ⟨current, here, done⟩ := Option.bind_eq_some_iff.mp done
      obtain ⟨⟨loaded, after⟩, loads, done⟩ := Option.bind_eq_some_iff.mp done
      cases done
      obtain ⟨front, rest, -, -, rfl⟩ := Endpoint.LoadMsg_ok (toOption_eq_some loads)
      exact replaced fun message listed =>
        ⟨current, List.mem_of_getElem? here, List.mem_of_mem_eraseP listed⟩
  | SendMsg lua number =>
      obtain ⟨queued, -, done⟩ := Option.bind_eq_some_iff.mp done
      obtain ⟨current, here, done⟩ := Option.bind_eq_some_iff.mp done
      cases done
      exact replaced fun message listed => ⟨current, List.mem_of_getElem? here, listed⟩
  | BeginForWrite lua => exact same (onMessage lua _ done)
  | WriteRaw lua buf => exact same (onMessage lua _ done)
  | EndForWrite lua => exact same (onMessage lua _ done)
  | GetSize lua => exact same (onMessage lua _ done)
  | ReadRaw lua size => exact same (onMessage lua _ (ReadRaw_cases done).2)
  | overlongConnect manager addr => cases done
  | Restart number =>
      obtain ⟨current, -, done⟩ := Option.bind_eq_some_iff.mp done
      cases done
      exact replaced (List.forall_mem_nil _)
  | manager manager event => cases done

theorem InReception.step {event : WorldEvent} (all : world.InReception) (sound : world.Sound)
    (armed : world.Armed) (polite : world.Polite event)
    (stepped : machine.step world event = some next) : next.InReception := by
  rcases step_cases stepped with ⟨manager, call, rfl, done⟩ | ⟨-, done⟩
  · obtain ⟨current, control, after, here, stands, same, ready, own, moved, settled⟩ :=
      manage_standing armed done
    have endpoint := sound.endpoint here
    rw [← same] at endpoint
    have received : control.InReception := by
      unfold Control.InReception
      rw [same]
      exact all current (List.mem_of_getElem? here)
    have kept := received.step_of_polite endpoint ready own (polite control stands) moved
    obtain ⟨busy, rfl, -⟩ := settle_cases settled
    intro other member
    rcases List.mem_or_eq_of_mem_set member with old | rfl
    · exact all other old
    · exact kept
  · intro manager member message listed
    obtain ⟨former, old, was⟩ := script_recvList done manager member message listed
    exact all former old message was

theorem survives_of_careful {event : WorldEvent} (armed : world.Armed) (all : world.InReception)
    (expects : world.Expects event) (careful : world.Careful event) (polite : world.Polite event) :
    world.Survives event := by
  cases event with
  | LoadMsg lua manager =>
      intro current here empty
      have pending := careful current here
      simp only [Endpoint.HasPendingMsg, Endpoint.getMsg, empty, List.head?_nil,
        Bool.false_eq_true] at pending
  | manager manager event =>
      obtain ⟨own, control, stands, expects⟩ := expects
      intro other there
      cases stands.symm.trans there
      obtain ⟨current, here, same, ready⟩ := standing_cases armed stands
      have received : control.InReception := by
        unfold Control.InReception
        rw [same]
        exact all current (List.mem_of_getElem? here)
      exact (polite control stands).survives received ready own expects
  | ReadRaw lua size =>
      obtain ⟨message, holds, left⟩ := careful
      refine ⟨Option.isSome_iff_exists.mpr ⟨message, holds⟩, ?_⟩
      rcases left with rfl | ⟨positive, -⟩
      · exact le_rfl
      · exact positive.le
  | _ => exact careful

instance (world : World) : DecidablePred world.Careful
  | .LoadMsg _ manager => inferInstanceAs (Decidable (∀ current ∈ world.managers[manager]?,
      Endpoint.HasPendingMsg { process := world.process, manager := current } = true))
  | .SendMsg lua _ | .BeginForWrite lua | .EndForWrite lua | .GetSize lua =>
      inferInstanceAs (Decidable ((world.message lua).isSome = true))
  | .WriteRaw lua buf => inferInstanceAs (Decidable
      (∃ message ∈ world.message lua, message.HasRoom (buf.length % 4294967296)))
  | .ReadRaw lua size => inferInstanceAs (Decidable
      (∃ message ∈ world.message lua, message.HasLeft size))
  | .overlongConnect _ _ => .isFalse id
  | .newManager | .newLuaMsg | .gcLuaMsg _ | .CreateNewMessage _ | .Restart _ | .manager _ _ =>
      .isTrue trivial

instance (world : World) : DecidablePred world.Polite
  | .manager manager event =>
      inferInstanceAs (Decidable (∀ control ∈ world.standing manager, control.Polite event))
  | .newManager | .newLuaMsg | .gcLuaMsg _ | .CreateNewMessage _ | .LoadMsg _ _ | .SendMsg _ _
  | .BeginForWrite _ | .WriteRaw _ _ | .EndForWrite _ | .GetSize _ | .ReadRaw _ _
  | .overlongConnect _ _ | .Restart _ => .isTrue trivial

end World

end EngSocket
