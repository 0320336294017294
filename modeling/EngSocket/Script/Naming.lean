import EngSocket.Script.Registry

/-!
# Which object a name reaches

`GetSocketByName` goes through `s_objList` in the order of the addresses. Objects of one
class all have the name of the class, so that a name can have several objects. The one
that is reached has the least address among those that were made under the name and are
not collected yet, whatever else has happened (`EngSocket.Program.reaches`); a message
that is sent by name is appended to the list of that object's manager and to no other
one (`EngSocket.Program.sent_by_name`).
-/

namespace EngSocket

open Foundation

namespace Program

/-- The record of the objects of a name. -/
def rename (name : String) (addresses : List Nat) : ProgramEvent → List Nat
  | .newSocket address instClassName =>
      if instClassName = name then address :: addresses else addresses
  | .gcSocket address => addresses.filter fun other => other ≠ address
  | _ => addresses

/-- The objects that were made under a name and are not collected yet. -/
def named (name : String) (events : List ProgramEvent) : List Nat :=
  events.foldl (rename name) []

/-- The name of an object. -/
def nameOf (address : Nat) (program : Program) : Option String :=
  (program.s_objList.get address).map SocketObject.m_socketObjectName

variable {program next : Program} {name : String} {address : Nat}

theorem nameOf_congr {other : Nat}
    (same : next.s_objList.get other = program.s_objList.get other) :
    next.nameOf other = program.nameOf other := by
  rw [nameOf, same, nameOf]

/-- The manager is all that `GetConnection` changes of an object. -/
theorem nameOf_GetConnection {manager : Nat} {middle : Program}
    (connects : program.GetConnection address = some (manager, middle)) (other : Nat) :
    middle.nameOf other = program.nameOf other := by
  by_cases same : other = address
  · subst same
    obtain ⟨object, here, connects⟩ := Option.bind_eq_some_iff.mp connects
    cases connected : object.m_pConnectionMgr with
    | some number =>
        simp only [connected] at connects
        cases connects
        rfl
    | none =>
        simp only [connected] at connects
        cases connects
        rw [nameOf, nameOf, OrderedMap.get_put_self, here]
        rfl
  · exact nameOf_congr ((GetConnection_cases connects).2.1 other same)

/-- A call on an object renames none. -/
theorem nameOf_onSocket {call : Nat → World → Option World}
    (done : program.onSocket address call = some next) (other : Nat) :
    next.nameOf other = program.nameOf other := by
  obtain ⟨manager, middle, connects, world, -, rfl⟩ := onSocket_cases done
  exact nameOf_GetConnection connects other

/-- Only objects that come or go change the list of a name. -/
theorem rename_of_call {event : ProgramEvent} {manager : Nat} {world after : World}
    (called : program.callOf event manager world = some after) (addresses : List Nat) :
    rename name addresses event = addresses := by
  cases event with
  | newSocket _ _ | gcSocket _ => cases called
  | _ => rfl

/-- The record holds the objects of the name. -/
def Lists (name : String) (addresses : List Nat) (program : Program) : Prop :=
  ∀ address, address ∈ addresses ↔ program.nameOf address = some name

/-- **The list of a name** is kept up to date by every step. -/
theorem Lists.step {addresses : List Nat} {event : ProgramEvent}
    (lists : program.Lists name addresses) (stepped : machine.step program event = some next) :
    next.Lists name (rename name addresses event) := by
  intro other
  cases step_spec stepped with
  | @newSocket address instClassName idle fresh =>
      have unnamed : program.nameOf address = none := by rw [nameOf, fresh, Option.map_none]
      by_cases same : other = address
      · subst same
        have absent : other ∉ addresses := by
          rw [lists, unnamed]
          exact (Option.some_ne_none name).symm
        rw [nameOf, OrderedMap.get_put_self, Option.map_some, Option.some_inj, rename]
        split
        · next named => exact iff_of_true List.mem_cons_self named
        · next other => exact iff_of_false absent other
      · rw [nameOf_congr (OrderedMap.get_put_of_ne same _ _), ← lists, rename]
        split
        · exact List.mem_cons.trans (or_iff_right same)
        · exact Iff.rfl
  | @gcSocket address object world idle here closes =>
      rw [rename, List.mem_filter, lists, decide_eq_true_eq]
      by_cases same : other = address
      · rw [same, nameOf, nameOf, OrderedMap.get_erase_self]
        exact iff_of_false (fun found => found.2 rfl) (Option.some_ne_none name).symm
      · have kept : nameOf other { world, s_objList := program.s_objList.erase address } =
            program.nameOf other := nameOf_congr (OrderedMap.get_erase_of_ne same _)
        rw [kept]
        exact and_iff_left same
  | onSocket idle for_ called =>
      obtain ⟨manager, middle, connects, world, done, -⟩ := onSocket_cases called
      rw [rename_of_call done, nameOf_onSocket called]
      exact lists other
  | luaMsg idle own done => exact lists other
  | reply waits done => exact lists other

/-- It is right after every run. -/
theorem lists_of_run (grants : Nat → Bool) (junk : Nat → Memory UInt8)
    {events : List ProgramEvent} (name : String)
    (reached : machine.run (initial grants junk) events = some program) :
    program.Lists name (named name events) := by
  have start : (initial grants junk).Lists name [] := fun address =>
    iff_of_false List.not_mem_nil (Option.some_ne_none name).symm
  have watched := Machine.invariant (fun addresses _ event => rename name addresses event)
    (fun addresses program => program.Lists name addresses)
    (fun _ _ _ _ _ lists stepped => lists.step stepped) []
    (Machine.Meets.of_forall (fun _ _ => trivial) events _) reached start
  rwa [Machine.watch_foldl (rename name) reached] at watched

/-- **The object that a name reaches** has the least address of all that have the name. -/
theorem reaches (grants : Nat → Bool) (junk : Nat → Memory UInt8) {events : List ProgramEvent}
    (reached : machine.run (initial grants junk) events = some program) :
    (program.GetSocketByName name).map Prod.fst = some address ↔
      address ∈ named name events ∧ ∀ other ∈ named name events, address ≤ other := by
  have lists := lists_of_run grants junk name reached
  have accepted (other : Nat) : other ∈ named name events ↔
      ∃ object, program.s_objList.get other = some object ∧
        object.m_socketObjectName = name := (lists other).trans Option.map_eq_some_iff
  constructor
  · intro reaches
    obtain ⟨entry, found, rfl⟩ := Option.map_eq_some_iff.mp reaches
    obtain ⟨here, same, least⟩ := OrderedMap.first_eq_some_iff.mp found
    refine ⟨(accepted entry.1).mpr ⟨entry.2, here, of_decide_eq_true same⟩, fun other member => ?_⟩
    obtain ⟨object, there, same⟩ := (accepted other).mp member
    exact least other object there (decide_eq_true same)
  · rintro ⟨member, least⟩
    obtain ⟨object, here, same⟩ := (accepted address).mp member
    refine Option.map_eq_some_iff.mpr ⟨(address, object), ?_, rfl⟩
    refine OrderedMap.first_eq_some_iff.mpr ⟨here, decide_eq_true same, ?_⟩
    exact fun other object there named =>
      least other ((accepted other).mpr ⟨object, there, of_decide_eq_true named⟩)

/-! ## Sending by name -/

/-- The messages that wait to be sent on an object. -/
def sendList (address : Nat) (program : Program) : List NetMessage :=
  ((program.managerOf address).bind fun manager => program.world.managers[manager]?).elim []
    CConnectionManager.m_sendList

/-- A new manager has nothing to send. -/
theorem sendList_GetConnection {manager : Nat} {middle : Program}
    (connects : program.GetConnection address = some (manager, middle)) :
    middle.sendList address = program.sendList address := by
  obtain ⟨has, -, ⟨-, rfl⟩ | ⟨lacks, rfl, grown⟩⟩ := GetConnection_cases connects
  · rfl
  · rw [sendList, sendList, has, lacks, Option.bind_some, grown, List.getElem?_concat_length]
    rfl

theorem message_GetConnection {manager lua : Nat} {middle : Program}
    (connects : program.GetConnection address = some (manager, middle)) :
    middle.world.message lua = program.world.message lua := by
  obtain ⟨-, -, ⟨-, rfl⟩ | ⟨-, -, grown⟩⟩ := GetConnection_cases connects
  · rfl
  · rw [grown]
    rfl

/-- `SendMsg` queues the message of the `CLuaMsg` behind what waits. -/
theorem sendList_SendMsg {lua : Nat}
    (done : program.onSocket address (World.SendMsg lua) = some next) :
    ∃ message, program.world.message lua = some message ∧ next.world.message lua = none ∧
      next.sendList address = program.sendList address ++ [message.ResetForSend] := by
  obtain ⟨manager, middle, connects, world, sent, rfl⟩ := onSocket_cases done
  obtain ⟨message, holds, sent⟩ := Option.bind_eq_some_iff.mp sent
  obtain ⟨current, here, sent⟩ := Option.bind_eq_some_iff.mp sent
  obtain rfl := Option.some.inj sent
  have has : middle.managerOf address = some manager := (GetConnection_cases connects).1
  have before : program.sendList address = current.m_sendList := by
    rw [← sendList_GetConnection connects, sendList, has, Option.bind_some, here]
    rfl
  refine ⟨message, (message_GetConnection connects).symm.trans holds, ?_, ?_⟩
  · have slot := (List.getElem?_eq_some_iff.mp (World.message_eq_some holds)).1
    rw [World.message, World.luaMsg, World.setMessage, List.getElem?_set_self slot]
    rfl
  · have place := (List.getElem?_eq_some_iff.mp here).1
    rw [before, sendList]
    change ((middle.managerOf address).bind fun manager => _).elim [] _ = _
    rw [has, Option.bind_some, World.setMessage, List.getElem?_set_self place]
    rfl

/-- **A message sent by name** waits behind the others on the object that has the least
address of all of that name, and nothing is changed on any other object. Without a name,
that of the default socket is meant. -/
theorem sent_by_name (grants : Nat → Bool) (junk : Nat → Memory UInt8)
    {events : List ProgramEvent} {lua : Nat} {socketname : Option String}
    (reached : machine.run (initial grants junk) events = some program)
    (sent : machine.step program (.SendMsg lua socketname) = some next) :
    ∃ address ∈ named (socketname.getD "defaultSocket") events,
      (∀ other ∈ named (socketname.getD "defaultSocket") events, address ≤ other) ∧
        (∃ message, program.world.message lua = some message ∧ next.world.message lua = none ∧
          next.sendList address = program.sendList address ++ [message.ResetForSend]) ∧
            ∀ other ≠ address, AgreesAt other program next := by
  cases step_spec sent with
  | @onSocket _ address _ idle for_ called =>
      have found : (program.GetSocketByName (socketname.getD "defaultSocket")).map Prod.fst =
          some address := by
        cases socketname with
        | none => exact for_
        | some socketname => exact for_
      obtain ⟨member, least⟩ := (reaches grants junk reached).mp found
      refine ⟨address, member, least, sendList_SendMsg called, fun other apart => ?_⟩
      refine (registered_of_run grants junk reached).step_agrees sent ?_
      rw [for_]
      exact fun same => apart (Option.some.inj same).symm

/-- Two objects of one name, of which the second one takes over. -/
def shadowing : List ProgramEvent :=
  [.newSocket 8 "chat", .newSocket 4 "chat", .luaMsg .newLuaMsg, .luaMsg (.CreateNewMessage 0)]

theorem sent_by_name_shadowing :
    ∃ program next, machine.run (initial (fun _ => true) fun _ _ => 0) shadowing = some program ∧
      machine.step program (.SendMsg 0 (some "chat")) = some next ∧
        named "chat" shadowing = [4, 8] ∧
          ∃ address ∈ named "chat" shadowing, (∀ other ∈ named "chat" shadowing, address ≤ other) ∧
            (∃ message, program.world.message 0 = some message ∧ next.world.message 0 = none ∧
              next.sendList address = program.sendList address ++ [message.ResetForSend]) ∧
                ∀ other ≠ address, AgreesAt other program next := by
  have ran : (machine.run (initial (fun _ => true) fun _ _ => 0)
      (shadowing ++ [.SendMsg 0 (some "chat")])).isSome = true := by decide +kernel
  obtain ⟨next, reached⟩ := Option.isSome_iff_exists.mp ran
  rw [Machine.run_append] at reached
  obtain ⟨program, first, second⟩ := Option.bind_eq_some_iff.mp reached
  obtain ⟨_, sent, same⟩ := Machine.run_cons_eq_some.mp second
  cases same
  exact ⟨program, next, first, sent, by decide +kernel, sent_by_name _ _ first sent⟩

end Program

end EngSocket
