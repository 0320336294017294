import EngSocket.Reception.RoundTrip

/-!
# From the receive list to the script

`LoadMsg` takes the front of `m_recvList` without looking at it. While the script
calls it only when `HasPendingMsg` holds, the messages handed out are the frames
in order and those behind them are still read right; a single call at another
moment crashes, or hands out a message that is still being received
(`EngSocket.Link.deliversInOrder_iff`).
-/

namespace EngSocket

open Foundation

/-- `LoadMsg` at any moment, and otherwise a receiver whose headers are filled. -/
def Control.AdmitsLoads (control : Control) : Event → Prop
  | .LoadMsg => True
  | event => control.Admits event ∧ control.FillsHeaders event

/-- What an event hands out to the script: the message as it was in `m_recvList`. -/
def Control.loads (control : Control) : Event → List NetMessage
  | .LoadMsg =>
      match control with
      | .idle endpoint => endpoint.getMsg.toList
      | _ => []
  | _ => []

/-- `LoadMsg` is called only if `HasPendingMsg` holds. -/
def Control.Pending (control : Control) : Event → Prop
  | .LoadMsg => control.endpoint.HasPendingMsg = true
  | _ => True

/-- The messages handed out along a run. -/
def Link.handed (link : Link) (events : List Event) : List NetMessage :=
  Link.machine.watch (fun handed link event => handed ++ link.control.loads event) [] link events

/-- The messages handed out, and then the complete ones in `m_recvList`, have these
payloads; behind them there is at most one that is being received. -/
def Control.DeliversInOrder (payloads : List (List UInt8)) (handed : List NetMessage)
    (control : Control) : Prop :=
  (∀ reason after, control ≠ .aborted reason after) ∧
    ∃ done rest, control.endpoint.manager.m_recvList = done ++ rest ∧ rest.length ≤ 1 ∧
      (∀ message ∈ rest, message.isEnd = false) ∧
        List.Forall₂ NetMessage.Carries payloads (handed ++ done)

/-- `LoadMsg` is taken by an idle manager only. -/
theorem Endpoint.step_LoadMsg {control next : Control}
    (stepped : Endpoint.machine.step control .LoadMsg = some next) :
    ∃ endpoint, control = .idle endpoint ∧ endpoint.call .LoadMsg = some next := by
  rcases Endpoint.step_cases stepped with idle | ⟨point, endpoint, reply, -, same, -⟩
  · exact idle
  · cases same

/-- A receiver of which the script takes messages: these are the first items that
the reader has emitted, and the manager is where the reader is with the others. -/
structure Link.HandsOut (stream : List UInt8) (handed : List NetMessage) (link : Link) : Prop where
  sound : link.control.Sound
  armed : link.control.Armed
  order : ∃ consumed out waiting, consumed ++ link.unread = stream ∧
    (frameDecoder.feed frameDecoder.start consumed).2 = out ++ waiting ∧
      List.Forall₂ NetMessage.Carries (out.map Item.payload) handed ∧
        (frameDecoder.feed frameDecoder.start consumed).1.Aligned ∧
          link.control.Tracks ((frameDecoder.feed frameDecoder.start consumed).1, waiting)

variable {stream : List UInt8} {handed : List NetMessage} {link next : Link}

theorem Link.HandsOut.receive {frames : List Frame} (valid : ∀ frame ∈ frames, frame.Valid)
    (sent : stream = (frames.map Frame.bytes).flatten) {event : Event}
    (handsOut : link.HandsOut stream handed) (admits : link.control.Admits event)
    (fills : link.control.FillsHeaders event)
    (stepped : Link.machine.step link event = some next) : next.HandsOut stream handed := by
  obtain ⟨sound, armed, consumed, out, waiting, taken, emitted, carried, aligned, tracks⟩ :=
    handsOut
  obtain ⟨sound', armed'⟩ := Link.sound_armed_step ⟨sound, armed⟩ admits stepped
  obtain ⟨moved, unread⟩ := Link.step_eq_some stepped
  obtain ⟨holds, aligned'⟩ := tracks.holds_of_fills aligned admits fills moved
  have taken' : consumed ++ event.piece ++ next.unread = stream := by
    rw [List.append_assoc, unread, taken]
  have bounded := bounded_of_prefix valid
    (sent ▸ taken' ▸ List.prefix_append _ _ : consumed ++ event.piece <+: _)
  rw [Decoder.feed_append] at bounded
  have tracks' := tracks.step sound armed admits
    (fun piece member => Phase.Holds.covers (holds piece member)) bounded moved
  refine ⟨sound', armed', consumed ++ event.piece, out,
    waiting ++ (frameDecoder.feed (frameDecoder.feed frameDecoder.start consumed).1 event.piece).2,
    taken', ?_, carried, ?_, ?_⟩
  · rw [Decoder.feed_append, emitted, List.append_assoc]
  · rw [Decoder.feed_append]
    exact aligned'
  · rw [Decoder.feed_append]
    exact tracks'

/-- A complete message is the first one that waits. -/
theorem Settled.front {read : Phase × List Item} {message : NetMessage} {rest : List NetMessage}
    (settled : Settled read (message :: rest)) (ended : message.isEnd = true) :
    ∃ item items, read.2 = item :: items ∧ Complete item message ∧ Settled (read.1, items) rest := by
  obtain ⟨phase, items⟩ := read
  obtain ⟨done, complete, ⟨atStart, rfl⟩ | ⟨within, last, reading, back⟩⟩ := settled
  · cases complete with
    | cons first others => exact ⟨_, _, rfl, first, rest, others, Or.inl ⟨atStart, rfl⟩⟩
  · cases done with
    | nil =>
        cases back
        exact absurd (reading.isEnd_eq.symm.trans ended) Bool.noConfusion
    | cons other done =>
        cases back
        cases complete with
        | cons first others =>
            exact ⟨_, _, rfl, first, done, others, Or.inr ⟨within, last, reading, rfl⟩⟩

theorem Link.HandsOut.load (handsOut : link.HandsOut stream handed)
    (pending : link.control.endpoint.HasPendingMsg = true)
    (stepped : Link.machine.step link .LoadMsg = some next) :
    next.HandsOut stream (handed ++ link.control.loads .LoadMsg) := by
  obtain ⟨sound, armed, consumed, out, waiting, taken, emitted, carried, aligned, tracks⟩ :=
    handsOut
  obtain ⟨moved, unread⟩ := Link.step_eq_some stepped
  have allowed : Event.LoadMsg.Sound := trivial
  have sound' := sound.step armed allowed moved
  have armed' := armed.step moved
  obtain ⟨endpoint, idle, called⟩ := Endpoint.step_LoadMsg moved
  have same : next.unread = link.unread := unread
  rw [idle] at pending tracks ⊢
  rcases Endpoint.call_LoadMsg called with ⟨none_, -⟩ | ⟨message, rest, front, loaded⟩
  · simp only [Control.endpoint, Endpoint.HasPendingMsg, Endpoint.getMsg, none_,
      List.head?_nil, Bool.false_eq_true] at pending
  · simp only [Control.endpoint, Endpoint.HasPendingMsg, Endpoint.getMsg, front,
      List.head?_cons] at pending
    have settled : Settled _ endpoint.manager.m_recvList := tracks
    rw [front] at settled
    obtain ⟨item, items, rfl, complete, settled⟩ := settled.front pending
    have given : (Control.idle endpoint).loads .LoadMsg = [message] := by
      simp only [Control.loads, Endpoint.getMsg, front, List.head?_cons, Option.toList_some]
    rw [given]
    refine ⟨sound', armed', consumed, out ++ [item], items, same ▸ taken, ?_, ?_, aligned, ?_⟩
    · rw [emitted, List.append_assoc, List.singleton_append]
    · rw [List.map_append]
      exact List.rel_append carried (.cons complete.carries .nil)
    · rw [loaded]
      change Settled _ (endpoint.RemoveMsg message.address).manager.m_recvList
      rw [Endpoint.RemoveMsg_front front]
      exact settled

theorem Link.HandsOut.step {frames : List Frame} (valid : ∀ frame ∈ frames, frame.Valid)
    (sent : stream = (frames.map Frame.bytes).flatten) {event : Event}
    (handsOut : link.HandsOut stream handed) (admits : link.control.AdmitsLoads event)
    (pending : link.control.Pending event)
    (stepped : Link.machine.step link event = some next) :
    next.HandsOut stream (handed ++ link.control.loads event) := by
  cases event with
  | LoadMsg => exact handsOut.load pending stepped
  | _ =>
      change next.HandsOut stream (handed ++ [])
      rw [List.append_nil]
      exact handsOut.receive valid sent admits.1 admits.2 stepped

/-- **Whole runs of a receiver** that hands out nothing but messages that are pending. -/
theorem Link.HandsOut.run {frames : List Frame} (valid : ∀ frame ∈ frames, frame.Valid)
    {endpoint : Endpoint} (sound : endpoint.Sound) (fresh : endpoint.manager.m_recvList = [])
    {events : List Event} {final : Link}
    (meets : Link.machine.Meets
      (fun link event => link.control.AdmitsLoads event ∧ link.control.Pending event)
      { control := .idle endpoint, unread := (frames.map Frame.bytes).flatten } events)
    (reached : Link.machine.run
      { control := .idle endpoint, unread := (frames.map Frame.bytes).flatten } events =
        some final) :
    final.HandsOut (frames.map Frame.bytes).flatten (Link.handed
      { control := .idle endpoint, unread := (frames.map Frame.bytes).flatten } events) := by
  have started : Link.HandsOut (frames.map Frame.bytes).flatten []
      { control := .idle endpoint, unread := (frames.map Frame.bytes).flatten } :=
    ⟨sound, trivial, [], [], [], rfl, rfl, .nil, rfl, [], .nil, Or.inl ⟨rfl, fresh⟩⟩
  exact Machine.invariant (fun handed link event => handed ++ link.control.loads event)
    (fun handed link => link.HandsOut (frames.map Frame.bytes).flatten handed)
    (fun _ _ _ _ allowed handsOut stepped => handsOut.step valid rfl allowed.1 allowed.2 stepped)
    [] meets reached started

/-- Behind the messages handed out come those which are complete, and then at most
the one being received. -/
theorem Link.HandsOut.deliversInOrder {frames : List Frame} (valid : ∀ frame ∈ frames, frame.Valid)
    (handsOut : link.HandsOut (frames.map Frame.bytes).flatten handed) {consumed : List UInt8}
    (taken : consumed ++ link.unread = (frames.map Frame.bytes).flatten) :
    link.control.DeliversInOrder
      ((Frame.arrived frames consumed.length).map Frame.payload) handed := by
  obtain ⟨-, -, consumed', out, waiting, taken', emitted, carried, -, tracks⟩ := handsOut
  obtain rfl := List.append_cancel_right (taken.trans taken'.symm)
  rw [feed_arrived valid ⟨_, taken⟩] at emitted
  have order {done : List NetMessage} (complete : List.Forall₂ Complete waiting done) :
      List.Forall₂ NetMessage.Carries
        ((Frame.arrived frames consumed.length).map Frame.payload) (handed ++ done) := by
    rw [← Frame.map_item_payload, emitted, List.map_append]
    apply List.rel_append carried
    rw [List.forall₂_map_left_iff]
    exact complete.imp fun _ _ ended => ended.carries
  obtain ⟨running, done, rest, list, few, open_, complete⟩ := tracks.split
  exact ⟨running, done, rest, list, few, open_, order complete⟩

/-- A message was handed out that is not complete, or there was a crash. -/
def Link.Spoiled (handed : List NetMessage) (link : Link) : Prop :=
  (∃ message ∈ handed, message.isEnd = false) ∨ ∃ reason after, link.control = .aborted reason after

theorem Link.Spoiled.step {event : Event} (spoiled : link.Spoiled handed)
    (stepped : Link.machine.step link event = some next) :
    next.Spoiled (handed ++ link.control.loads event) := by
  rcases spoiled with ⟨message, member, incomplete⟩ | ⟨reason, after, aborted⟩
  · exact Or.inl ⟨message, List.mem_append_left _ member, incomplete⟩
  · have moved := (Link.step_eq_some stepped).1
    rw [aborted] at moved
    cases moved

/-- `LoadMsg` without a pending message spoils the order. -/
theorem Link.spoiled_of_not_pending (handed : List NetMessage) {event : Event}
    (early : ¬ link.control.Pending event)
    (stepped : Link.machine.step link event = some next) :
    next.Spoiled (handed ++ link.control.loads event) := by
  cases event with
  | LoadMsg =>
      obtain ⟨endpoint, idle, called⟩ := Endpoint.step_LoadMsg (Link.step_eq_some stepped).1
      rcases Endpoint.call_LoadMsg called with ⟨-, crashed⟩ | ⟨message, rest, front, -⟩
      · exact Or.inr ⟨_, _, crashed⟩
      · rw [idle] at early ⊢
        simp only [Control.Pending, Control.endpoint, Endpoint.HasPendingMsg, Endpoint.getMsg, front,
          List.head?_cons, Bool.not_eq_true] at early
        refine Or.inl ⟨message, List.mem_append_right _ ?_, early⟩
        simp only [Control.loads, Endpoint.getMsg, front, List.head?_cons, Option.toList_some,
          List.mem_singleton]
  | _ => exact absurd trivial early

theorem Link.Spoiled.not_deliversInOrder (spoiled : link.Spoiled handed)
    (payloads : List (List UInt8)) : ¬ link.control.DeliversInOrder payloads handed := by
  rintro ⟨running, done, rest, -, -, -, carried⟩
  rcases spoiled with ⟨message, member, incomplete⟩ | ⟨reason, after, aborted⟩
  · obtain ⟨payload, carries⟩ := exists_of_forall₂_mem carried (List.mem_append_left done member)
    exact Bool.false_ne_true (incomplete.symm.trans carries.1)
  · exact running reason after aborted

/-- **In order and exactly once.** The frames that have arrived are handed out or
wait in order exactly if `LoadMsg` was called only when a message was pending. -/
theorem Link.deliversInOrder_iff {frames : List Frame} (valid : ∀ frame ∈ frames, frame.Valid)
    {endpoint : Endpoint} (sound : endpoint.Sound) (fresh : endpoint.manager.m_recvList = [])
    {events : List Event} {final : Link}
    (meets : Link.machine.Meets (fun link event => link.control.AdmitsLoads event)
      { control := .idle endpoint, unread := (frames.map Frame.bytes).flatten } events)
    (reached : Link.machine.run
      { control := .idle endpoint, unread := (frames.map Frame.bytes).flatten } events =
        some final)
    {consumed : List UInt8}
    (taken : consumed ++ final.unread = (frames.map Frame.bytes).flatten) :
    final.control.DeliversInOrder ((Frame.arrived frames consumed.length).map Frame.payload)
        (Link.handed { control := .idle endpoint, unread := (frames.map Frame.bytes).flatten }
          events) ↔
      Link.machine.Meets (fun link event => link.control.Pending event)
        { control := .idle endpoint, unread := (frames.map Frame.bytes).flatten } events := by
  constructor
  · intro inOrder
    by_contra early
    have spoiled := Machine.of_not_meets
      (fun handed link event => handed ++ link.control.loads event) (fun _ _ => True)
      (fun handed link => link.Spoiled handed) (fun _ _ _ _ _ _ _ => trivial)
      (fun handed _ _ _ _ _ early stepped => Link.spoiled_of_not_pending handed early stepped)
      (fun _ _ _ _ _ spoiled stepped => spoiled.step stepped) [] meets reached trivial early
    exact spoiled.not_deliversInOrder _ inOrder
  · intro pending
    have handsOut := Link.HandsOut.run valid sound fresh (meets.and pending) reached
    exact handsOut.deliversInOrder valid taken

instance (control : Control) : DecidablePred control.AdmitsLoads
  | .LoadMsg => .isTrue trivial
  | .Update dt => inferInstanceAs (Decidable (control.Admits (.Update dt) ∧ _))
  | .reply reply => inferInstanceAs (Decidable (control.Admits (.reply reply) ∧ _))
  | .Connect _ _ _ | .ReConnect _ | .Close | .CloseConnection | .SendMsg _ | .InitEncrypt =>
      .isFalse And.left

instance (control : Control) : DecidablePred control.Pending
  | .LoadMsg => inferInstanceAs (Decidable (control.endpoint.HasPendingMsg = true))
  | .Connect _ _ _ | .ReConnect _ | .Close | .CloseConnection | .SendMsg _ | .InitEncrypt
  | .Update _ | .reply _ => .isTrue trivial

theorem Link.deliversInOrder_of_pending :
    ∃ final,
      Link.machine.run (.atStart [.short [65]])
        (receiving [[0, 1], [65]] .quiet ++ [.LoadMsg]) = some final ∧
      final.control.DeliversInOrder [[65]]
        (Link.handed (.atStart [.short [65]]) (receiving [[0, 1], [65]] .quiet ++ [.LoadMsg])) := by
  have ran : (Link.machine.run (.atStart [.short [65]])
      (receiving [[0, 1], [65]] .quiet ++ [.LoadMsg])).map Link.unread = some [] := by decide
  obtain ⟨final, reached, consumed⟩ := Option.map_eq_some_iff.mp ran
  have taken : [0, 1, 65] ++ final.unread = ([Frame.short [65]].map Frame.bytes).flatten := by
    rw [consumed]
    decide
  have valid : ∀ frame ∈ [Frame.short [65]], frame.Valid := by decide
  exact ⟨final, reached, (Link.deliversInOrder_iff valid Endpoint.justConnected_sound rfl
    (by decide) reached taken).mpr (by decide)⟩

/-- The script takes the message whose header alone has arrived. -/
theorem Link.not_deliversInOrder_of_early_load :
    ¬ ∀ (frames : List Frame) (endpoint : Endpoint) (events : List Event) (final : Link)
        (consumed : List UInt8),
      (∀ frame ∈ frames, frame.Valid) → endpoint.Sound → endpoint.manager.m_recvList = [] →
        Link.machine.Meets (fun link event => link.control.AdmitsLoads event)
          { control := .idle endpoint, unread := (frames.map Frame.bytes).flatten } events →
        Link.machine.run
          { control := .idle endpoint, unread := (frames.map Frame.bytes).flatten } events =
            some final →
        consumed ++ final.unread = (frames.map Frame.bytes).flatten →
          final.control.DeliversInOrder ((Frame.arrived frames consumed.length).map Frame.payload)
            (Link.handed { control := .idle endpoint, unread := (frames.map Frame.bytes).flatten }
              events) := by
  intro claimed
  have ran : (Link.machine.run (.atStart [.short [65]])
      (receiving [[0, 1]] .quiet ++ [.LoadMsg])).map Link.unread = some [65] := by decide
  obtain ⟨final, reached, consumed⟩ := Option.map_eq_some_iff.mp ran
  have given : (Link.handed (.atStart [.short [65]])
      (receiving [[0, 1]] .quiet ++ [.LoadMsg])).map NetMessage.isEnd = [false] := by decide
  have inOrder := claimed [.short [65]] .justConnected _ final [0, 1] (by decide)
    Endpoint.justConnected_sound rfl (by decide) reached (by rw [consumed]; decide)
  obtain ⟨-, done, rest, -, -, -, carried⟩ := inOrder
  have none_ : Frame.arrived [.short [65]] [(0 : UInt8), 1].length = [] := by decide
  rw [none_] at carried
  have empty := List.append_eq_nil_iff.mp (List.forall₂_nil_left_iff.mp carried)
  change (Link.handed (.atStart [.short [65]]) _) = [] ∧ _ at empty
  rw [empty.1] at given
  cases given

end EngSocket
