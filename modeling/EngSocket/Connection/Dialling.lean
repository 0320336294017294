import EngSocket.Connection.Effects
import Mathlib.Data.List.TakeWhile

/-!
# Dialling a list of addresses

`DoConnect` goes through the resolved addresses with one `CSocketCommon` and stops
at the first that can be dialled (`EngSocket.Endpoint.falls_back`). Each attempt
overwrites `m_socket`: a descriptor whose `connect` has failed is lost unless it is
the last one tried (`EngSocket.Endpoint.keepsOnlyHeld_iff`).

The loop is run here with a record of the calls that it makes, and forgetting the
record gives the loop back (`EngSocket.Dialling.tryAddresses_endpoint`).
-/

namespace EngSocket

/-- `socket` returns `-1` or a descriptor. -/
def AddrInfo.Answered (address : AddrInfo) : Prop :=
  address.createSocket = -1 ∨ 0 ≤ address.createSocket

/-- The socket was created, and `connect` has succeeded or is in progress. -/
def AddrInfo.Viable (address : AddrInfo) : Prop :=
  0 ≤ address.createSocket ∧ (address.connectTo ≠ -1 ∨ address.errno = EINPROGRESS)

instance : DecidablePred AddrInfo.Answered := fun address =>
  inferInstanceAs (Decidable (address.createSocket = -1 ∨ _))

instance : DecidablePred AddrInfo.Viable := fun address =>
  inferInstanceAs (Decidable (0 ≤ address.createSocket ∧ _))

/-- An address that cannot be dialled has failed at one of the two calls. -/
theorem AddrInfo.Answered.cases {address : AddrInfo} (answered : address.Answered)
    (unreachable : ¬ address.Viable) :
    address.createSocket = -1 ∨
      0 ≤ address.createSocket ∧ address.connectTo = -1 ∧ address.errno ≠ EINPROGRESS := by
  rcases answered with refused | created
  · exact Or.inl refused
  · refine Or.inr ⟨created, ?_, ?_⟩
    · by_contra succeeded
      exact unreachable ⟨created, Or.inl succeeded⟩
    · intro pending
      exact unreachable ⟨created, Or.inr pending⟩

/-- A call that `DoConnect` makes for an address. -/
inductive Attempt
  | CreateSocket (address : AddrInfo)
  | ConnectTo (address : AddrInfo)
  deriving DecidableEq, Repr

/-- The calls made for one address. -/
def AddrInfo.attempts (address : AddrInfo) : List Attempt :=
  if address.createSocket < 0 then [.CreateSocket address]
  else [.CreateSocket address, .ConnectTo address]

/-- The descriptor opened for an address. -/
def AddrInfo.opened (address : AddrInfo) : Option Int :=
  if address.createSocket = -1 then none else some address.createSocket

/-- A manager in `DoConnect` and the calls it has made so far. -/
structure Dialling where
  endpoint : Endpoint
  attempts : List Attempt

namespace Dialling

def CreateSocket (address : AddrInfo) (dialling : Dialling) : Dialling where
  endpoint := dialling.endpoint.CreateSocket address
  attempts := dialling.attempts ++ [.CreateSocket address]

def ConnectTo (address : AddrInfo) (dialling : Dialling) : Dialling :=
  { dialling with attempts := dialling.attempts ++ [.ConnectTo address] }

def OnError (errorCode : NetErrorCode) (dialling : Dialling) : Dialling :=
  { dialling with endpoint := dialling.endpoint.OnError errorCode }

/-- The loop of `DoConnect` over the addresses, with its calls. -/
def tryAddresses : List AddrInfo → Dialling → Bool × Dialling
  | [], dialling => (true, dialling)
  | address :: next, dialling =>
      let dialling := dialling.CreateSocket address
      let ret := address.createSocket
      if ret = -1 then
        if next ≠ [] then tryAddresses next dialling
        else (false, dialling.OnError .CreateSocket)
      else if ret < 0 then
        if address.errno = EAFNOSUPPORT ∨ address.errno = EPROTONOSUPPORT then
          if next ≠ [] then tryAddresses next dialling else (true, dialling)
        else tryAddresses next dialling
      else
        let dialling := dialling.ConnectTo address
        if address.connectTo = -1 ∧ address.errno ≠ EINPROGRESS then
          if next ≠ [] then tryAddresses next dialling
          else (false, dialling.OnError .ConnectToServer)
        else (true, dialling)

/-- **Forgetting the calls** gives the loop of the source. -/
theorem tryAddresses_endpoint (addresses : List AddrInfo) (dialling : Dialling) :
    dialling.endpoint.tryAddresses addresses =
      ((dialling.tryAddresses addresses).1, (dialling.tryAddresses addresses).2.endpoint) := by
  induction addresses generalizing dialling with
  | nil => rfl
  | cons address next ih =>
      have created := ih (dialling.CreateSocket address)
      have connected := ih ((dialling.CreateSocket address).ConnectTo address)
      unfold tryAddresses Endpoint.tryAddresses
      simp only
      split
      · split
        · exact created
        · rfl
      · split
        · split
          · split
            · exact created
            · rfl
          · exact created
        · split
          · split
            · exact connected
            · rfl
          · rfl

/-- What trying some addresses one after the other has done. -/
def dialled (addresses : List AddrInfo) (dialling : Dialling) : Dialling where
  endpoint := addresses.foldl (fun endpoint address => endpoint.CreateSocket address)
    dialling.endpoint
  attempts := dialling.attempts ++ addresses.flatMap AddrInfo.attempts

variable {dialling : Dialling} {address : AddrInfo} {next : List AddrInfo}

theorem dialled_cons (address : AddrInfo) (next : List AddrInfo) (dialling : Dialling) :
    dialling.dialled (address :: next) = (dialling.dialled [address]).dialled next := by
  simp only [dialled, List.foldl_cons, List.foldl_nil, List.flatMap_cons, List.flatMap_nil,
    List.append_nil, List.append_assoc]

/-- Without a socket there is one call for the address. -/
theorem dialled_of_negative (negative : address.createSocket < 0) :
    dialling.dialled [address] = dialling.CreateSocket address := by
  simp only [dialled, List.foldl_cons, List.foldl_nil, List.flatMap_cons, List.flatMap_nil,
    AddrInfo.attempts, negative, ↓reduceIte, List.append_nil, CreateSocket]

theorem dialled_of_created (created : 0 ≤ address.createSocket) :
    dialling.dialled [address] = (dialling.CreateSocket address).ConnectTo address := by
  simp only [dialled, List.foldl_cons, List.foldl_nil, List.flatMap_cons, List.flatMap_nil,
    AddrInfo.attempts, not_lt.mpr created, ↓reduceIte, List.append_nil, CreateSocket, ConnectTo,
    List.append_assoc, List.cons_append, List.nil_append]

/-- The loop stops at an address that can be dialled. -/
theorem tryAddresses_of_viable (viable : address.Viable) :
    dialling.tryAddresses (address :: next) = (true, dialling.dialled [address]) := by
  obtain ⟨created, connects⟩ := viable
  have known : ¬ address.createSocket = -1 := by omega
  have open_ : ¬ (address.connectTo = -1 ∧ address.errno ≠ EINPROGRESS) := by
    rintro ⟨failed, other⟩
    exact connects.elim (fun succeeded => succeeded failed) other
  rw [dialled_of_created created, tryAddresses]
  simp only [known, not_lt.mpr created, open_, ↓reduceIte]

theorem tryAddresses_of_not_viable (answered : address.Answered) (unreachable : ¬ address.Viable)
    (more : next ≠ []) :
    dialling.tryAddresses (address :: next) = (dialling.dialled [address]).tryAddresses next := by
  rcases answered.cases unreachable with refused | ⟨created, failed⟩
  · rw [dialled_of_negative (by omega), tryAddresses]
    simp only [refused, more, ↓reduceIte, ne_eq, not_false_eq_true]
  · have known : ¬ address.createSocket = -1 := by omega
    rw [dialled_of_created created, tryAddresses]
    simp only [known, not_lt.mpr created, failed, more, ↓reduceIte, ne_eq, not_false_eq_true,
      and_self]

/-- The last address closes the socket and reports. -/
theorem tryAddresses_of_last (answered : address.Answered) (unreachable : ¬ address.Viable) :
    ∃ errorCode, dialling.tryAddresses [address] =
      (false, (dialling.dialled [address]).OnError errorCode) := by
  rcases answered.cases unreachable with refused | ⟨created, failed⟩
  · refine ⟨.CreateSocket, ?_⟩
    rw [dialled_of_negative (by omega), tryAddresses]
    simp only [refused, ↓reduceIte, ne_eq, not_true_eq_false]
  · refine ⟨.ConnectToServer, ?_⟩
    have known : ¬ address.createSocket = -1 := by omega
    rw [dialled_of_created created, tryAddresses]
    simp only [known, not_lt.mpr created, failed, ↓reduceIte, ne_eq, not_true_eq_false,
      not_false_eq_true, and_self]

/-- **The first address that can be dialled** ends the loop, whatever comes later. -/
theorem tryAddresses_of_first {passed later : List AddrInfo} {chosen : AddrInfo}
    (answered : ∀ address ∈ passed, address.Answered)
    (unreachable : ∀ address ∈ passed, ¬ address.Viable) (viable : chosen.Viable) :
    dialling.tryAddresses (passed ++ chosen :: later) =
      (true, dialling.dialled (passed ++ [chosen])) := by
  induction passed generalizing dialling with
  | nil => exact tryAddresses_of_viable viable
  | cons address passed ih =>
      rw [List.forall_mem_cons] at answered unreachable
      rw [List.cons_append, tryAddresses_of_not_viable answered.1 unreachable.1
        (List.append_ne_nil_of_right_ne_nil _ (List.cons_ne_nil _ _)), List.cons_append,
        dialled_cons address (passed ++ [chosen])]
      exact ih answered.2 unreachable.2

/-- **Without such an address** all are tried, and the last one reports. -/
theorem tryAddresses_of_none {addresses : List AddrInfo} (nonempty : addresses ≠ [])
    (answered : ∀ address ∈ addresses, address.Answered)
    (unreachable : ∀ address ∈ addresses, ¬ address.Viable) :
    ∃ errorCode, dialling.tryAddresses addresses =
      (false, (dialling.dialled addresses).OnError errorCode) := by
  induction addresses generalizing dialling with
  | nil => exact absurd rfl nonempty
  | cons address next ih =>
      rw [List.forall_mem_cons] at answered unreachable
      by_cases last : next = []
      · rw [last]
        exact tryAddresses_of_last answered.1 unreachable.1
      · rw [tryAddresses_of_not_viable answered.1 unreachable.1 last, dialled_cons address next]
        exact ih last answered.2 unreachable.2

end Dialling

/-! ## What is left open -/

/-- The addresses that are given up for a later one. -/
def passedOver (addresses : List AddrInfo) : List AddrInfo :=
  addresses.dropLast.takeWhile fun address => ¬ address.Viable

theorem passedOver_of_first {passed later : List AddrInfo} {chosen : AddrInfo}
    (unreachable : ∀ address ∈ passed, ¬ address.Viable) (viable : chosen.Viable) :
    passedOver (passed ++ chosen :: later) = passed := by
  unfold passedOver
  rw [List.dropLast_append_of_ne_nil (List.cons_ne_nil _ _), List.takeWhile_append_of_pos]
  · cases later with
    | nil => rw [List.dropLast_singleton, List.takeWhile_nil, List.append_nil]
    | cons other later =>
        rw [List.dropLast_cons_cons, List.takeWhile_cons_of_neg, List.append_nil]
        simp only [viable, not_true_eq_false, decide_false, Bool.false_eq_true, not_false_eq_true]
  · intro address member
    exact decide_eq_true (unreachable address member)

theorem passedOver_of_none {addresses : List AddrInfo}
    (unreachable : ∀ address ∈ addresses, ¬ address.Viable) :
    passedOver addresses = addresses.dropLast := by
  unfold passedOver
  rw [List.takeWhile_eq_self_iff]
  intro address member
  exact decide_eq_true (unreachable address (List.dropLast_subset addresses member))

namespace Endpoint

variable {endpoint : Endpoint}

/-- The descriptor of `m_pSocket`. -/
def held (endpoint : Endpoint) : List Int :=
  (endpoint.manager.m_pSocket.map CSocketCommon.m_socket).toList

/-- Of the descriptors opened since, only the one of `m_pSocket` is still open. -/
def KeepsOnlyHeld (before after : Endpoint) : Prop :=
  after.process.descriptors = after.held ++ before.process.descriptors

/-- Trying addresses opens a descriptor for each that gets one. -/
theorem dialled_descriptors (addresses : List AddrInfo) (endpoint : Endpoint) :
    (addresses.foldl (fun endpoint address => endpoint.CreateSocket address)
      endpoint).process.descriptors =
        (addresses.filterMap AddrInfo.opened).reverse ++ endpoint.process.descriptors := by
  induction addresses generalizing endpoint with
  | nil => rfl
  | cons address next ih =>
      rw [List.foldl_cons, ih, List.filterMap_cons]
      by_cases refused : address.createSocket = -1
      · simp only [CreateSocket, AddrInfo.opened, refused, ↓reduceIte]
      · simp only [CreateSocket, AddrInfo.opened, refused, ↓reduceIte, List.reverse_cons,
          List.append_assoc, List.cons_append, List.nil_append]

/-- `m_socket` is what the last `socket` returned. -/
theorem dialled_socket (passed : List AddrInfo) (last : AddrInfo) {socket : CSocketCommon}
    (present : endpoint.manager.m_pSocket = some socket) :
    ∃ other : CSocketCommon,
      ((passed ++ [last]).foldl (fun endpoint address => endpoint.CreateSocket address)
        endpoint).manager.m_pSocket = some { other with m_socket := last.createSocket } := by
  induction passed generalizing endpoint socket with
  | nil =>
      refine ⟨socket, ?_⟩
      simp only [List.nil_append, List.foldl_cons, List.foldl_nil, CreateSocket, present,
        Option.map_some]
  | cons address passed ih =>
      rw [List.cons_append, List.foldl_cons]
      apply @ih (endpoint.CreateSocket address) { socket with m_socket := address.createSocket }
      simp only [CreateSocket, present, Option.map_some]

theorem opened_eq_nil_iff {addresses : List AddrInfo} :
    addresses.filterMap AddrInfo.opened = [] ↔
      ∀ address ∈ addresses, address.createSocket = -1 := by
  rw [List.filterMap_eq_nil_iff]
  refine forall₂_congr fun address _ => ?_
  rw [AddrInfo.opened, ite_eq_left_iff, imp_iff_not (Option.some_ne_none _), not_not]

/-- Closing what the last `socket` returned leaves what the others opened. -/
theorem erase_last_opened {addresses : List AddrInfo} (nonempty : addresses ≠ []) {table : List Int}
    (descriptors : ∀ descriptor ∈ table, 0 ≤ descriptor) :
    ((addresses.filterMap AddrInfo.opened).reverse ++ table).erase
        (addresses.getLast nonempty).createSocket =
      (addresses.dropLast.filterMap AddrInfo.opened).reverse ++ table := by
  have split := List.dropLast_append_getLast nonempty
  have listed : addresses.filterMap AddrInfo.opened =
      addresses.dropLast.filterMap AddrInfo.opened ++
        [addresses.getLast nonempty].filterMap AddrInfo.opened := by
    rw [← List.filterMap_append, split]
  rw [listed, List.filterMap_cons, AddrInfo.opened, List.reverse_append]
  by_cases refused : (addresses.getLast nonempty).createSocket = -1
  · rw [if_pos refused, refused]
    apply List.erase_of_not_mem
    intro member
    rcases List.mem_append.mp member with opened | before
    · obtain ⟨address, inside, there⟩ := List.mem_filterMap.mp (List.mem_reverse.mp opened)
      rw [AddrInfo.opened] at there
      split at there
      · cases there
      · next known => exact known (Option.some.inj there)
    · exact absurd (descriptors _ before) (by decide)
  · rw [if_neg refused]
    exact List.erase_cons_head _ _

theorem Close_descriptors {socket : CSocketCommon}
    (present : endpoint.manager.m_pSocket = some socket) :
    endpoint.Close.process.descriptors = endpoint.process.descriptors.erase socket.m_socket := by
  rw [Close_of_socket present]
  rfl

/-- A `select` that fails closes the descriptor. -/
theorem CheckState_descriptors {reply : SelectReply} {socket : CSocketCommon} {result : Bool}
    {after : Endpoint} (failed : reply.failed = true)
    (present : endpoint.manager.m_pSocket = some socket)
    (done : endpoint.CheckState reply = .ok (result, after)) :
    after.process.descriptors = endpoint.process.descriptors.erase socket.m_socket := by
  simp only [CheckState, present, failed, ↓reduceIte] at done
  split at done
  all_goals
    cases done
    exact @Close_descriptors _ { socket with m_writeFlag := false, m_readFlag := false } rfl

/-! ## `DoConnect` -/

section DoConnect

variable {addr : ServerName} {port : Int} {dial : Dial} {addresses : List AddrInfo}

/-- `DoConnect` on its way to the loop. -/
def dialling (addr : ServerName) (port : Int) (endpoint : Endpoint) : Dialling where
  endpoint := endpoint.opened addr port
  attempts := []

/-- The calls that `DoConnect` makes for addresses. -/
def attempts (addr : ServerName) (port : Int) (addresses : List AddrInfo) (endpoint : Endpoint) :
    List Attempt :=
  ((endpoint.dialling addr port).tryAddresses addresses).2.attempts

/-- **`DoConnect` with an address that can be dialled.** -/
theorem DoConnect_of_first {passed later : List AddrInfo} {chosen : AddrInfo}
    (resolved : dial.addresses = some (passed ++ chosen :: later))
    (answered : ∀ address ∈ passed ++ chosen :: later, address.Answered)
    (unreachable : ∀ address ∈ passed, ¬ address.Viable) (viable : chosen.Viable)
    (endpoint : Endpoint) :
    endpoint.attempts addr port (passed ++ chosen :: later) =
        (passed ++ [chosen]).flatMap AddrInfo.attempts ∧
      ∃ (reached : Endpoint) (socket : CSocketCommon),
        endpoint.DoConnect addr port dial = reached.CheckState dial.select ∧
          reached.GetState = .Connecting ∧ reached.manager.m_tOutTimer = CONNECT_TIMEOUT ∧
            reached.manager.m_pSocket = some socket ∧ socket.m_socket = chosen.createSocket ∧
              reached.process.descriptors = chosen.createSocket ::
                ((passed.filterMap AddrInfo.opened).reverse ++ endpoint.process.descriptors) := by
  have ended := @Dialling.tryAddresses_of_first (endpoint.dialling addr port) passed later chosen
    (fun address member => answered address (List.mem_append_left _ member)) unreachable viable
  have looped := (endpoint.dialling addr port).tryAddresses_endpoint (passed ++ chosen :: later)
  rw [ended] at looped
  have opened : (endpoint.opened addr port).manager.m_pSocket = some CSocketCommon.new := rfl
  obtain ⟨other, present⟩ := dialled_socket passed chosen opened
  constructor
  · rw [attempts, ended]
    rfl
  · refine ⟨_, _, DoConnect_of_true resolved looped, rfl, rfl, present, rfl, ?_⟩
    have descriptors := dialled_descriptors (passed ++ [chosen]) (endpoint.opened addr port)
    have created : ¬ chosen.createSocket = -1 := by
      have positive := viable.1
      omega
    rw [List.filterMap_append, List.filterMap_cons, AddrInfo.opened, if_neg created,
      List.filterMap_nil, List.reverse_append] at descriptors
    exact descriptors

/-- **`DoConnect` without such an address.** -/
theorem DoConnect_of_unreachable (resolved : dial.addresses = some addresses)
    (nonempty : addresses ≠ []) (answered : ∀ address ∈ addresses, address.Answered)
    (unreachable : ∀ address ∈ addresses, ¬ address.Viable) (endpoint : Endpoint) :
    endpoint.attempts addr port addresses = addresses.flatMap AddrInfo.attempts ∧
      ∃ after, endpoint.DoConnect addr port dial = .ok (false, after) ∧
        after.GetState = .ConnectError ∧ after.manager.m_pSocket = none ∧
          after.process.descriptors = ((addresses.filterMap AddrInfo.opened).reverse ++
            endpoint.process.descriptors).erase (addresses.getLast nonempty).createSocket := by
  obtain ⟨errorCode, ended⟩ := @Dialling.tryAddresses_of_none (endpoint.dialling addr port) _
    nonempty answered unreachable
  have looped := (endpoint.dialling addr port).tryAddresses_endpoint addresses
  rw [ended] at looped
  have opened : (endpoint.opened addr port).manager.m_pSocket = some CSocketCommon.new := rfl
  obtain ⟨other, present⟩ := dialled_socket addresses.dropLast (addresses.getLast nonempty) opened
  constructor
  · rw [attempts, ended]
    rfl
  · refine ⟨_, DoConnect_of_false resolved looped, rfl, OnError_socket errorCode _, ?_⟩
    have closed := Close_descriptors present
    rw [List.dropLast_append_getLast nonempty, dialled_descriptors] at closed
    exact closed

/-- Some address can be dialled, or none. -/
theorem exists_first_or_unreachable (addresses : List AddrInfo) :
    (∃ passed chosen later, addresses = passed ++ chosen :: later ∧
      (∀ address ∈ passed, ¬ address.Viable) ∧ chosen.Viable) ∨
        ∀ address ∈ addresses, ¬ address.Viable := by
  cases found : addresses.find? fun address => address.Viable with
  | none =>
      refine Or.inr fun address member viable => ?_
      exact List.find?_eq_none.mp found address member (decide_eq_true viable)
  | some chosen =>
      obtain ⟨viable, passed, later, split, before⟩ := List.find?_eq_some_iff_append.mp found
      refine Or.inl ⟨passed, chosen, later, split, ?_, of_decide_eq_true viable⟩
      intro address member
      have refused := before address member
      rw [Bool.not_eq_true'] at refused
      exact of_decide_eq_false refused

/-- The last `CheckState` decides about an address that can be dialled. -/
theorem DoConnect_outcome {passed later : List AddrInfo} {chosen : AddrInfo}
    (resolved : dial.addresses = some (passed ++ chosen :: later))
    (answered : ∀ address ∈ passed ++ chosen :: later, address.Answered)
    (unreachable : ∀ address ∈ passed, ¬ address.Viable) (viable : chosen.Viable)
    {result : Bool} {after : Endpoint}
    (done : endpoint.DoConnect addr port dial = .ok (result, after)) :
    (dial.select.failed = false → result = true ∧ after.GetState = .Connecting ∧
        after.manager.m_tOutTimer = CONNECT_TIMEOUT ∧ after.held = [chosen.createSocket] ∧
          after.process.descriptors = chosen.createSocket ::
            ((passed.filterMap AddrInfo.opened).reverse ++ endpoint.process.descriptors)) ∧
      (dial.select.failed = true → result = false ∧ after.GetState = .ConnectError ∧
        after.manager.m_pSocket = none ∧
          after.process.descriptors =
            (passed.filterMap AddrInfo.opened).reverse ++ endpoint.process.descriptors) := by
  obtain ⟨-, reached, socket, checks, state, timer, present, descriptor, descriptors⟩ :=
    @DoConnect_of_first addr port dial passed later chosen resolved answered unreachable viable
      endpoint
  rw [checks] at done
  constructor
  · intro succeeded
    cases (CheckState_of_not_failed succeeded present).symm.trans done
    exact ⟨rfl, state, timer, congrArg (fun descriptor => [descriptor]) descriptor, descriptors⟩
  · intro failed
    obtain ⟨closed, checked, -, null, error⟩ := CheckState_of_failed failed present
    have erased := CheckState_descriptors failed present done
    cases checked.symm.trans done
    rw [descriptors, descriptor, List.erase_cons_head] at erased
    exact ⟨rfl, error, null, erased⟩

/-- **Address fallback.** The addresses are tried in order up to the first that can be
dialled, and the dial fails exactly if there is none or the last `select` fails. -/
theorem falls_back (resolved : dial.addresses = some addresses) (nonempty : addresses ≠ [])
    (answered : ∀ address ∈ addresses, address.Answered) (endpoint : Endpoint) :
    ∃ result after, endpoint.DoConnect addr port dial = .ok (result, after) ∧
      (∀ passed chosen later, addresses = passed ++ chosen :: later →
        (∀ address ∈ passed, ¬ address.Viable) → chosen.Viable →
          endpoint.attempts addr port addresses =
              (passed ++ [chosen]).flatMap AddrInfo.attempts ∧
            (dial.select.failed = false →
              result = true ∧ after.GetState = .Connecting ∧
                after.manager.m_tOutTimer = CONNECT_TIMEOUT ∧
                  after.held = [chosen.createSocket]) ∧
            (dial.select.failed = true →
              after.GetState = .ConnectError ∧ after.manager.m_pSocket = none)) ∧
        ((∀ address ∈ addresses, ¬ address.Viable) →
          endpoint.attempts addr port addresses = addresses.flatMap AddrInfo.attempts) ∧
        (after.GetState = .ConnectError ∧ after.manager.m_pSocket = none ∧ result = false ↔
          (∀ address ∈ addresses, ¬ address.Viable) ∨ dial.select.failed = true) := by
  obtain ⟨result, after, done, -⟩ := endpoint.DoConnect_effect addr port dial
  refine ⟨result, after, done, ?_, ?_, ?_⟩
  · rintro passed chosen later rfl unreachable viable
    obtain ⟨up, down⟩ := DoConnect_outcome resolved answered unreachable viable done
    refine ⟨(DoConnect_of_first resolved answered unreachable viable endpoint).1, ?_, ?_⟩
    · intro succeeded
      obtain ⟨returned, state, timer, held, -⟩ := up succeeded
      exact ⟨returned, state, timer, held⟩
    · intro failed
      obtain ⟨-, state, null, -⟩ := down failed
      exact ⟨state, null⟩
  · intro unreachable
    exact (DoConnect_of_unreachable resolved nonempty answered unreachable endpoint).1
  · constructor
    · rintro ⟨error, -, -⟩
      rcases exists_first_or_unreachable addresses with
        ⟨passed, chosen, later, rfl, unreachable, viable⟩ | unreachable
      · refine Or.inr (Bool.eq_true_of_not_eq_false fun succeeded => ?_)
        obtain ⟨-, state, -⟩ :=
          (DoConnect_outcome resolved answered unreachable viable done).1 succeeded
        exact absurd (state.symm.trans error) NetConState.noConfusion
      · exact Or.inl unreachable
    · intro fails
      rcases exists_first_or_unreachable addresses with
        ⟨passed, chosen, later, rfl, unreachable, viable⟩ | unreachable
      · rcases fails with never | failed
        · exact absurd viable (never chosen (List.mem_append_right _ List.mem_cons_self))
        · obtain ⟨returned, error, null, -⟩ :=
            (DoConnect_outcome resolved answered unreachable viable done).2 failed
          exact ⟨error, null, returned⟩
      · obtain ⟨-, closed, failed, error, null, -⟩ :=
          @DoConnect_of_unreachable addr port dial _ resolved nonempty answered unreachable endpoint
        cases failed.symm.trans done
        exact ⟨error, null, rfl⟩

/-- A protocol that the system does not have, a network that cannot be reached, an attempt in
progress, and an address that is not tried. -/
def fourAddresses : List AddrInfo :=
  [{ createSocket := -1, connectTo := -1, errno := EAFNOSUPPORT },
    { createSocket := 3, connectTo := -1, errno := 101 },
    { createSocket := 4, connectTo := -1, errno := EINPROGRESS },
    { createSocket := 5, connectTo := 0, errno := 0 }]

theorem falls_back_of_fourAddresses :
    ∃ result after, (Endpoint.new .fresh).DoConnect ⟨"peer", by decide⟩ 80
        { addresses := some fourAddresses, select := .quiet } = .ok (result, after) ∧
      (Endpoint.new .fresh).attempts ⟨"peer", by decide⟩ 80 fourAddresses =
          (fourAddresses.take 3).flatMap AddrInfo.attempts ∧
        result = true ∧ after.held = [4] := by
  obtain ⟨result, after, done, first, -, -⟩ := @falls_back ⟨"peer", by decide⟩ 80
    { addresses := some fourAddresses, select := .quiet } fourAddresses rfl (by decide) (by decide)
    (.new .fresh)
  obtain ⟨called, up, -⟩ := first (fourAddresses.take 2) _ _ rfl (by decide) (by decide)
  obtain ⟨returned, -, -, held⟩ := up rfl
  exact ⟨result, after, done, called, returned, held⟩

/-- **No descriptor is lost** exactly if none was created for an address that is given up
for a later one. -/
theorem keepsOnlyHeld_iff (resolved : dial.addresses = some addresses) (nonempty : addresses ≠ [])
    (answered : ∀ address ∈ addresses, address.Answered) {endpoint : Endpoint}
    (table : ∀ descriptor ∈ endpoint.process.descriptors, 0 ≤ descriptor) :
    ∃ result after, endpoint.DoConnect addr port dial = .ok (result, after) ∧
      (endpoint.KeepsOnlyHeld after ↔
        ∀ address ∈ passedOver addresses, address.createSocket = -1) := by
  obtain ⟨result, after, done, -⟩ := endpoint.DoConnect_effect addr port dial
  refine ⟨result, after, done, ?_⟩
  have leaked {passed : List AddrInfo} (descriptors : after.process.descriptors =
      after.held ++ ((passed.filterMap AddrInfo.opened).reverse ++ endpoint.process.descriptors)) :
      endpoint.KeepsOnlyHeld after ↔ ∀ address ∈ passed, address.createSocket = -1 := by
    rw [KeepsOnlyHeld, descriptors, List.append_cancel_left_eq, List.append_left_eq_self,
      List.reverse_eq_nil_iff, opened_eq_nil_iff]
  rcases exists_first_or_unreachable addresses with
    ⟨passed, chosen, later, rfl, unreachable, viable⟩ | unreachable
  · rw [passedOver_of_first unreachable viable]
    apply leaked
    obtain ⟨up, down⟩ := DoConnect_outcome resolved answered unreachable viable done
    cases outcome : dial.select.failed with
    | false =>
        obtain ⟨-, -, -, held, descriptors⟩ := up outcome
        rw [held, descriptors]
        rfl
    | true =>
        obtain ⟨-, -, null, descriptors⟩ := down outcome
        rw [held, null, descriptors]
        rfl
  · rw [passedOver_of_none unreachable]
    apply leaked
    obtain ⟨-, closed, failed, -, null, descriptors⟩ :=
      @DoConnect_of_unreachable addr port dial _ resolved nonempty answered unreachable endpoint
    cases failed.symm.trans done
    rw [held, null, descriptors, erase_last_opened nonempty table]
    rfl

/-- A socket that could not be created is no descriptor to lose. -/
theorem keepsOnlyHeld_of_refused :
    ∃ result after, (Endpoint.new .fresh).DoConnect ⟨"peer", by decide⟩ 80
        { addresses := some [{ createSocket := -1, connectTo := -1, errno := EAFNOSUPPORT },
            { createSocket := 4, connectTo := -1, errno := EINPROGRESS }]
          select := .quiet } = .ok (result, after) ∧
      (Endpoint.new .fresh).KeepsOnlyHeld after := by
  obtain ⟨result, after, done, keeps⟩ := @keepsOnlyHeld_iff ⟨"peer", by decide⟩ 80
    { addresses := some [{ createSocket := -1, connectTo := -1, errno := EAFNOSUPPORT },
        { createSocket := 4, connectTo := -1, errno := EINPROGRESS }]
      select := .quiet } _ rfl (by decide) (by decide) (.new .fresh) (by decide)
  exact ⟨result, after, done, keeps.mpr (by decide)⟩

/-- The first network cannot be reached: descriptor 3 stays open beside 4, which is in use. -/
theorem not_keepsOnlyHeld_of_unreachable :
    ¬ ∀ (endpoint after : Endpoint) (addr : ServerName) (port : Int) (dial : Dial)
        (addresses : List AddrInfo) (result : Bool),
      endpoint.manager.m_pSocket = none → dial.addresses = some addresses → addresses ≠ [] →
        (∀ address ∈ addresses, address.Answered) →
          endpoint.DoConnect addr port dial = .ok (result, after) →
            endpoint.KeepsOnlyHeld after := by
  intro claimed
  have computed : ((Endpoint.new .fresh).DoConnect ⟨"peer", by decide⟩ 80
      { addresses := some (fourAddresses.drop 1), select := .quiet }).toOption.map
        (fun outcome => (outcome.2.process.descriptors, outcome.2.held)) = some ([4, 3], [4]) := by
    decide
  obtain ⟨⟨result, after⟩, returned, shows⟩ := Option.map_eq_some_iff.mp computed
  obtain ⟨descriptors, held⟩ := Prod.mk.inj shows
  have keeps := claimed (.new .fresh) after ⟨"peer", by decide⟩ 80
    { addresses := some (fourAddresses.drop 1), select := .quiet } _ result rfl rfl (by decide)
    (by decide) (toOption_eq_some returned)
  rw [KeepsOnlyHeld, descriptors, held] at keeps
  exact absurd keeps (by decide)

end DoConnect

end Endpoint

end EngSocket
