import Portalocker.Redis.Lock
set_option autoImplicit false

/-!
# What travels on the channel

`channel_handler` is called with every message that anybody publishes on the channel of a
lock, and what leaves it ends the thread that is the lock.  The decoder is a parameter: a
`Codec` is the `json` module of the language, with the exceptions it raises told apart.
-/

namespace Portalocker.Redis

/-! ## Payloads -/

/-- The payload of a message, or of a reply: a `str` on a connection that decodes its
responses, and `bytes` on another. -/
inductive Payload
  | str (text : Text)
  | bytes (data : List UInt8)
  deriving DecidableEq

/-- `not raw_data`. -/
def Payload.isEmpty : Payload → Bool
  | str text => text.isEmpty
  | bytes data => data.isEmpty

/-- The exceptions of `json.loads`.  `valueError` is a plain one, which an integer with
too many digits leads to. -/
inductive DecodeError
  | jsonDecodeError
  | unicodeDecodeError
  | valueError
  | typeError
  | recursionError
  deriving DecidableEq, Repr

namespace DecodeError

/-- `except (json.JSONDecodeError, TypeError)` catches it. -/
def isInvalidMessage : DecodeError → Bool
  | jsonDecodeError | typeError => true
  | _ => false

/-- `except (AttributeError, TypeError, ValueError)` catches it; the first three are
`ValueError`s. -/
def isUnreadable : DecodeError → Bool
  | recursionError => false
  | _ => true

end DecodeError

/-- The `json` module. -/
structure Codec where
  loads : Payload → Except DecodeError Json
  dumps : Json → Text
  /-- there is no value in an empty payload -/
  loads_empty : ∀ payload, payload.isEmpty = true → loads payload = .error .jsonDecodeError

/-- The payload decodes to an object whose `response_channel` is this string, and the
string is not empty. -/
def Codec.Asks (codec : Codec) (payload : Payload) (channel : Text) : Prop :=
  ∃ entries, codec.loads payload = .ok (.object entries) ∧
    Json.get entries "response_channel" = .text channel ∧ channel ≠ []

/-! ## The handler -/

/-- A message as the client library hands it on; a control frame has no payload. -/
structure PubsubMessage where
  type : Text
  data : Option Payload

/-- A payload that somebody has published. -/
def PubsubMessage.published (payload : Payload) : PubsubMessage :=
  ⟨"message".toList, some payload⟩

/-- What leaves the handler: an exception of the decoder, the failed assertion that there
is a connection, or an exception of the connection. -/
inductive HandlerError
  | decode (e : DecodeError)
  | assertion
  | connection (e : Exc)
  deriving DecidableEq

/-- `except Exception` catches it. -/
def HandlerError.isException : HandlerError → Bool
  | connection e => e.isException
  | _ => true

/-- A connection's `publish(channel, data)`; `none` when it does not raise. -/
abbrev Publish : Type := Text → Text → Option Exc

namespace RedisLock

variable (self : RedisLock) (codec : Codec) (publish : Publish)

/-- The end of `channel_handler`: publish the record on the channel that was asked for. -/
def publishReply (a : Attributes) (responseChannel : Text) :
    Except HandlerError (Option (Text × Text)) :=
  match a.connection with
  | none => .error .assertion
  | some _ =>
      let data := codec.dumps (reply self.holderId a.mode)
      match publish responseChannel data with
      | none => .ok (some (responseChannel, data))
      | some e => .error (.connection e)

/-- `channel_handler`: what it publishes, or the exception that leaves it. -/
def channelHandler (a : Attributes) (message : PubsubMessage) :
    Except HandlerError (Option (Text × Text)) :=
  if message.type ≠ "message".toList then .ok none
  else
    match message.data with
    | none => .ok none
    | some rawData =>
        if rawData.isEmpty then .ok none
        else
          match codec.loads rawData with
          | .error e => if e.isInvalidMessage then .ok none else .error (.decode e)
          | .ok (.object entries) =>
              match Json.get entries "response_channel" with
              | .text responseChannel =>
                  if responseChannel = [] then .ok none
                  else self.publishReply codec publish a responseChannel
              | _ => .ok none
          | .ok _ => .ok none

/-- Nothing leaves the handler, and it publishes the record of the lock exactly when it is
asked for it, on the channel that was asked for and on no other. -/
def HandledAsAsked (a : Attributes) (payload : Payload)
    (handled : Except HandlerError (Option (Text × Text))) : Prop :=
  ∃ published, handled = .ok published ∧ ∀ channel data, published = some (channel, data) ↔
    codec.Asks payload channel ∧ data = codec.dumps (reply self.holderId a.mode)

/-- The decoder raises nothing on the payload but what the handler catches; and if it asks
for a reply, then there is a connection and it publishes the reply. -/
def Digestible (a : Attributes) (payload : Payload) : Prop :=
  (∀ e, codec.loads payload = .error e → e = .jsonDecodeError ∨ e = .typeError) ∧
    ∀ channel, codec.Asks payload channel → a.connection ≠ none ∧
      publish channel (codec.dumps (reply self.holderId a.mode)) = none

end RedisLock

/-! ## The worker thread -/

/-- What a worker thread has published, the exception that ended it, and whether it has
interrupted the main thread. -/
structure Served where
  published : List (Text × Text) := []
  raised : Option HandlerError := none
  interrupted : Bool := false

/-- The reader of the client library: it hands one message after the other to the handler,
and ends with the first exception that leaves it. -/
def readMessages {α : Type} (handler : α → Except HandlerError (Option (Text × Text))) :
    List α → Served
  | [] => {}
  | message :: rest =>
      match handler message with
      | .error e => { raised := some e }
      | .ok published =>
          let served := readMessages handler rest
          { served with published := published.toList ++ served.published }

/-- `PubSubWorkerThread.run`. -/
def PubSubWorkerThread.run {α : Type}
    (handler : α → Except HandlerError (Option (Text × Text))) (messages : List α) : Served :=
  let served := readMessages handler messages
  { served with interrupted := served.raised.any HandlerError.isException }

/-- The worker thread of a lock, with the payloads that are published on its channel and
the attributes it finds when each of them arrives. -/
def RedisLock.worker (self : RedisLock) (codec : Codec) (publish : Publish)
    (messages : List (Attributes × Payload)) : Served :=
  PubSubWorkerThread.run (fun message =>
    self.channelHandler codec publish message.1 (.published message.2)) messages

/-! ## Harmless messages -/

section Handler

variable {self : RedisLock} {codec : Codec} {publish : Publish} {a : Attributes}
  {payload : Payload}

/-- Only one channel is asked for. -/
theorem Codec.Asks.unique {channel channel' : Text} (h : codec.Asks payload channel)
    (h' : codec.Asks payload channel') : channel = channel' := by
  obtain ⟨entries, hloads, hget, -⟩ := h
  obtain ⟨entries', hloads', hget', -⟩ := h'
  rw [hloads] at hloads'
  obtain rfl := Json.object.inj (Except.ok.inj hloads')
  rw [hget] at hget'
  exact Json.text.inj hget'

namespace RedisLock

/-- An exception of the decoder leaves the handler unless it is one of the two that the
handler catches. -/
theorem channelHandler_undecoded {e : DecodeError} (h : codec.loads payload = .error e) :
    self.channelHandler codec publish a (.published payload) =
      if e.isInvalidMessage then .ok none else .error (.decode e) := by
  unfold channelHandler PubsubMessage.published
  simp only [ne_eq, not_true, if_false]
  cases hempty : payload.isEmpty with
  | true =>
      rw [codec.loads_empty payload hempty] at h
      obtain rfl := Except.error.inj h
      rfl
  | false => simp [h]

/-- A payload that asks for a reply is not empty, and the reply is published. -/
theorem channelHandler_asked {channel : Text} (h : codec.Asks payload channel) :
    self.channelHandler codec publish a (.published payload) =
      self.publishReply codec publish a channel := by
  obtain ⟨entries, hloads, hget, hchannel⟩ := h
  have hempty : payload.isEmpty = false := by
    cases hempty : payload.isEmpty with
    | true =>
        rw [codec.loads_empty payload hempty] at hloads
        cases hloads
    | false => rfl
  unfold channelHandler PubsubMessage.published
  simp [hempty, hloads, hget, hchannel]

/-- Any other value is ignored. -/
theorem channelHandler_unasked {data : Json} (h : codec.loads payload = .ok data)
    (hasks : ∀ channel, ¬ codec.Asks payload channel) :
    self.channelHandler codec publish a (.published payload) = .ok none := by
  unfold channelHandler PubsubMessage.published
  simp only [ne_eq, not_true, if_false, h]
  split
  · rfl
  · cases data with
    | object entries =>
        dsimp only
        split
        · rename_i channel hget
          split
          · rfl
          · rename_i hchannel
            exact absurd ⟨entries, h, hget, hchannel⟩ (hasks channel)
        · rfl
    | _ => rfl

/-- What `publishReply` does is right when it does not raise. -/
theorem publishReply_iff {channel : Text} (h : codec.Asks payload channel) :
    self.HandledAsAsked codec a payload (self.publishReply codec publish a channel) ↔
      a.connection ≠ none ∧
        publish channel (codec.dumps (reply self.holderId a.mode)) = none := by
  unfold HandledAsAsked publishReply
  cases hconnection : a.connection with
  | none =>
      refine ⟨?_, fun hsome => absurd rfl hsome.1⟩
      rintro ⟨published, hpublished, -⟩
      cases hpublished
  | some connection =>
      dsimp only
      cases hpublish : publish channel (codec.dumps (reply self.holderId a.mode)) with
      | some e =>
          refine ⟨?_, fun hnone => (by cases hnone.2)⟩
          rintro ⟨published, hpublished, -⟩
          cases hpublished
      | none =>
          refine ⟨fun _ => ⟨Option.some_ne_none connection, rfl⟩,
            fun _ => ⟨_, rfl, fun channel' data => ?_⟩⟩
          constructor
          · intro heq
            obtain ⟨rfl, rfl⟩ := Prod.mk.inj (Option.some.inj heq)
            exact ⟨h, rfl⟩
          · rintro ⟨h', rfl⟩
            rw [h'.unique h]

/-- A message is handled as it should be exactly when it is digestible. -/
theorem handledAsAsked_iff :
    self.HandledAsAsked codec a payload
      (self.channelHandler codec publish a (.published payload)) ↔
      self.Digestible codec publish a payload := by
  cases hloads : codec.loads payload with
  | error e =>
      have hasks : ∀ channel, ¬ codec.Asks payload channel := by
        rintro channel ⟨entries, hentries, -⟩
        rw [hloads] at hentries
        cases hentries
      rw [channelHandler_undecoded hloads]
      constructor
      · rintro ⟨published, hpublished, -⟩
        refine ⟨fun e' he' => ?_, fun channel h => absurd h (hasks channel)⟩
        obtain rfl := Except.error.inj (hloads.symm.trans he')
        cases e with
        | jsonDecodeError => exact Or.inl rfl
        | typeError => exact Or.inr rfl
        | _ => cases hpublished
      · rintro ⟨hcaught, -⟩
        refine ⟨none, ?_, fun channel data => ⟨fun h => (by cases h), fun h => ?_⟩⟩
        · rcases hcaught e hloads with rfl | rfl <;> rfl
        · exact absurd h.1 (hasks channel)
  | ok data =>
      have hcaught : ∀ e, codec.loads payload = .error e →
          e = .jsonDecodeError ∨ e = .typeError := fun e he => by
        rw [hloads] at he
        cases he
      by_cases hasked : ∃ channel, codec.Asks payload channel
      · obtain ⟨channel, hasks⟩ := hasked
        rw [channelHandler_asked hasks, publishReply_iff hasks]
        refine ⟨fun h => ⟨hcaught, fun channel' h' => ?_⟩, fun h => h.2 channel hasks⟩
        rw [h'.unique hasks]
        exact h
      · have hasks : ∀ channel, ¬ codec.Asks payload channel := not_exists.1 hasked
        rw [channelHandler_unasked hloads hasks]
        refine ⟨fun _ => ⟨hcaught, fun channel h => absurd h (hasks channel)⟩,
          fun _ => ⟨none, rfl, fun channel d => ⟨fun h => (by cases h), fun h => ?_⟩⟩⟩
        exact absurd h.1 (hasks channel)

/-- Without an exception it does nothing wrong. -/
theorem handledAsAsked_of_ok {published : Option (Text × Text)}
    (h : self.channelHandler codec publish a (.published payload) = .ok published) :
    self.HandledAsAsked codec a payload (.ok published) := by
  rw [← h, handledAsAsked_iff]
  cases hloads : codec.loads payload with
  | error e =>
      rw [channelHandler_undecoded hloads] at h
      refine ⟨fun e' he' => ?_, ?_⟩
      · obtain rfl := Except.error.inj (hloads.symm.trans he')
        cases e with
        | jsonDecodeError => exact Or.inl rfl
        | typeError => exact Or.inr rfl
        | _ => cases h
      · rintro channel ⟨entries, hentries, -⟩
        rw [hloads] at hentries
        cases hentries
  | ok data =>
      refine ⟨fun e he => (by rw [hloads] at he; cases he), fun channel hasks => ?_⟩
      rw [channelHandler_asked hasks] at h
      unfold publishReply at h
      split at h
      · cases h
      · rename_i hconnection
        dsimp only at h
        split at h
        · exact ⟨by rw [hconnection]; exact Option.some_ne_none _, ‹_›⟩
        · cases h

end RedisLock

/-! ## The worker thread -/

section Worker

variable {α : Type} {handler : α → Except HandlerError (Option (Text × Text))}

/-- The reader gets to the end exactly when no message makes the handler raise. -/
theorem readMessages_raised {messages : List α} :
    (readMessages handler messages).raised = none ↔
      ∀ message ∈ messages, ∃ published, handler message = .ok published := by
  induction messages with
  | nil => simp [readMessages]
  | cons message rest ih =>
      unfold readMessages
      cases hhandled : handler message with
      | error e => simp [hhandled]
      | ok published => simp [hhandled, ih]

end Worker

end Handler

/-- Traffic on the channel of a lock, of any kind.  A message is handled as it should be,
without an exception and with a reply exactly when one is asked for, if and only if it is
digestible; and a worker thread reads all of its messages, without interrupting the main
thread, if and only if each of them is. -/
theorem traffic_harmless_iff (self : RedisLock) (codec : Codec) (publish : Publish) :
    (∀ (a : Attributes) (payload : Payload), self.HandledAsAsked codec a payload
      (self.channelHandler codec publish a (.published payload)) ↔
        self.Digestible codec publish a payload) ∧
    ∀ messages : List (Attributes × Payload),
      ((self.worker codec publish messages).raised = none ∧
        (self.worker codec publish messages).interrupted = false) ↔
      ∀ message ∈ messages, self.Digestible codec publish message.1 message.2 := by
  refine ⟨fun a payload => RedisLock.handledAsAsked_iff, fun messages => ?_⟩
  have hall : (readMessages (fun message : Attributes × Payload =>
      self.channelHandler codec publish message.1 (.published message.2)) messages).raised =
        none ↔ ∀ message ∈ messages, self.Digestible codec publish message.1 message.2 := by
    rw [readMessages_raised]
    refine forall₂_congr fun message _ => ?_
    rw [← RedisLock.handledAsAsked_iff]
    constructor
    · rintro ⟨published, hpublished⟩
      rw [hpublished]
      exact RedisLock.handledAsAsked_of_ok hpublished
    · rintro ⟨published, hpublished, -⟩
      exact ⟨published, hpublished⟩
  rw [← hall]
  unfold RedisLock.worker PubSubWorkerThread.run
  dsimp only
  constructor
  · exact fun h => h.1
  · intro h
    rw [h]
    exact ⟨rfl, rfl⟩

/-- What `json.loads` does with a text of digits: more than 4300 of them are refused when
they are turned into an integer.  Other texts do not occur below. -/
def digitsCodec : Codec where
  loads
    | .str text =>
        if text ≠ [] ∧ text.all Char.isDigit then
          if 4300 < text.length then .error .valueError
          else .ok (.number (text.foldl (fun n c => 10 * n + (c.toNat - 48)) 0 : Nat))
        else .error .jsonDecodeError
    | .bytes _ => .error .jsonDecodeError
  dumps _ := []
  loads_empty payload hempty := by
    cases payload with
    | str text =>
        obtain rfl : text = [] := List.isEmpty_iff.1 hempty
        rfl
    | bytes data => rfl

/-- A number of 4301 digits. -/
def longNumber : Payload := .str (List.replicate 4301 '1')

/-- The handler of a lock that is held. -/
def holderHandler : PubsubMessage → Except HandlerError (Option (Text × Text)) :=
  RedisLock.channelHandler { channel := ['c'], holderId := ['a'] } digitsCodec (fun _ _ => none)
    { connection := some 0, mode := .exclusive }

/-- A long number is traffic that asks for nothing.  It ends the worker thread of a holder,
and interrupts its program. -/
theorem long_number_ends_worker :
    ¬ RedisLock.HandledAsAsked { channel := ['c'], holderId := ['a'] } digitsCodec
        { connection := some 0, mode := .exclusive } longNumber
        (holderHandler (.published longNumber)) ∧
      (PubSubWorkerThread.run holderHandler [.published longNumber]).interrupted = true := by
  have hloads : digitsCodec.loads longNumber = .error .valueError := by
    have hdigits : (List.replicate 4301 '1').all Char.isDigit = true := by
      rw [List.all_replicate]
      decide
    have hne : List.replicate 4301 '1' ≠ [] := by
      rw [ne_eq, List.replicate_eq_nil_iff]
      decide
    have hlength : 4300 < (List.replicate 4301 '1').length := by
      rw [List.length_replicate]
      decide
    unfold digitsCodec longNumber
    dsimp only
    rw [if_pos ⟨hne, hdigits⟩, if_pos hlength]
  have hhandled : holderHandler (.published longNumber) = .error (.decode .valueError) :=
    RedisLock.channelHandler_undecoded hloads
  constructor
  · rintro ⟨published, hpublished, -⟩
    rw [hhandled] at hpublished
    cases hpublished
  · unfold PubSubWorkerThread.run readMessages
    rw [hhandled]
    rfl

end Portalocker.Redis
