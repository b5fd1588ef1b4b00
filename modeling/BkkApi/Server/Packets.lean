import BkkApi.Server.HandleClient

/-!
# Which packets are taken as requests

`handle_client` compares the number of received bytes with the size of the
request and nothing else.  A longer packet is cut to that size by the kernel and
then passes, and a field without a terminator is read on into what follows it.
`treatedExactly_iff` is the exact extent of the damage: the packets that are
treated as a strict reader would treat them are the shorter ones, which are
rejected, and those of the right size with both fields terminated.
-/

namespace BkkApi.Server.Packets

open BkkApi.Verified.CData
open BkkApi.Server.Protocol
open BkkApi.Server.Fetching (Fetches Call sampleStart)
open BkkApi.Server.HandleClient

/-- Both fields have a terminator inside their own arrays. -/
def Terminated (bytes : Bytes) : Prop :=
  0 ∈ bytes.take bkkUdsMaxStopIdLen ∧ 0 ∈ bytes.drop bkkUdsMaxStopIdLen

/-- A request packet: the size of the struct, with two terminated fields. -/
def WellFormed (bytes : Bytes) : Prop :=
  bytes.length = sizeofRequest ∧ Terminated bytes

/-- The request stands for the two fields of the packet: the lookup and every
fetch made with the request or a copy of it, wherever in memory it lies, use the
bytes of each field up to its first terminator. -/
structure StandsFor (request : RequestInMemory) (bytes : Bytes) : Prop where
  key : ∀ (fetches : Fetches) (env : Environment),
    ∃ pc now state entry,
      handleNext fetches env (.lookingUp request) =
        some (pc, fetches,
          [.lookedUp (cString (bytes.take bkkUdsMaxStopIdLen)) now state entry])
  query : ∀ beyond : Bytes,
    Call.enter { request with beyond := beyond } =
      { stopId := cString (bytes.take bkkUdsMaxStopIdLen)
        apiKey := cString (bytes.drop bkkUdsMaxStopIdLen)
        pc := .entered }

/-- What a strict reader does with a packet, whatever the shared state: it takes
a well-formed one for its two fields, and rejects any other without touching
cache or calls. -/
structure TreatedExactly (bytes : Bytes) : Prop where
  taken : WellFormed bytes → ∀ (fetches : Fetches) (env : Environment),
    env.packet = some bytes →
    ∃ request, StandsFor request bytes ∧
      handleNext fetches env .receiving =
        some (.lookingUp request, fetches, [.received (some bytes)])
  rejected : ¬ WellFormed bytes → ∀ (fetches : Fetches) (env : Environment),
    env.packet = some bytes →
    handleNext fetches env .receiving =
        some (.closing, fetches, [.received (some bytes)]) ∧
      handleNext fetches env .closing = some (.closed, fetches, [.closed])

/-- A packet is let through when it fills the buffer. -/
theorem handleNext_receiving (fetches : Fetches) {env : Environment}
    {bytes : Bytes} (hpacket : env.packet = some bytes) :
    handleNext fetches env .receiving =
      if sizeofRequest ≤ bytes.length then
        some (.lookingUp
          ⟨BkkUdsRequest.ofBytes (bytes.take sizeofRequest), env.beyond⟩,
          fetches, [.received (some bytes)])
      else some (.closing, fetches, [.received (some bytes)]) := by
  by_cases hlen : sizeofRequest ≤ bytes.length
  · have haccept : acceptRequest (some bytes) env.beyond = some _ :=
      acceptRequest_eq_some_iff.2 ⟨hlen, rfl⟩
    simp only [handleNext, hpacket, haccept, if_pos hlen]
  · have hreject : acceptRequest (some bytes) env.beyond = none := by
      cases haccept : acceptRequest (some bytes) env.beyond with
      | none => rfl
      | some request =>
          exact absurd (acceptRequest_eq_some_iff.1 haccept).1 hlen
    simp only [handleNext, hpacket, hreject, if_neg hlen]

/-- The fields of a well-formed packet are read from their own arrays, whatever
follows the request. -/
theorem standsFor_of_wellFormed {bytes : Bytes} (h : WellFormed bytes)
    (beyond : Bytes) :
    StandsFor ⟨BkkUdsRequest.ofBytes bytes, beyond⟩ bytes := by
  obtain ⟨hlen, hstop, hkey⟩ := h
  obtain ⟨hstopField, hkeyField⟩ := BkkUdsRequest.ofBytes_fields hlen
  have hstopId : ∀ beyond, RequestInMemory.stopId
      ⟨BkkUdsRequest.ofBytes bytes, beyond⟩ =
        cString (bytes.take bkkUdsMaxStopIdLen) := by
    intro beyond
    rw [RequestInMemory.stopId_of_terminated (by rw [hstopField]; exact hstop),
      hstopField]
  have hapiKey : ∀ beyond, RequestInMemory.apiKey
      ⟨BkkUdsRequest.ofBytes bytes, beyond⟩ =
        cString (bytes.drop bkkUdsMaxStopIdLen) := by
    intro beyond
    rw [RequestInMemory.apiKey_of_terminated (by rw [hkeyField]; exact hkey),
      hkeyField]
  constructor
  · intro fetches env
    let found := fetches.cache.getElement
      (cString (bytes.take bkkUdsMaxStopIdLen)) fetches.now
    refine ⟨afterLookup ⟨BkkUdsRequest.ofBytes bytes, beyond⟩ found.2 found.1,
      fetches.now, found.1, found.2, ?_⟩
    simp only [handleNext, hstopId]
    rfl
  · intro beyond'
    simp only [Call.enter, hstopId, hapiKey]

/-- A packet is treated exactly as a request packet should be when it is no
longer than one and, if it is as long, has both fields terminated. -/
theorem treatedExactly_iff (bytes : Bytes) :
    TreatedExactly bytes ↔
      bytes.length ≤ sizeofRequest ∧
        (bytes.length = sizeofRequest → Terminated bytes) := by
  constructor
  · intro h
    by_contra hcond
    have hmal : ¬ WellFormed bytes := fun hwell =>
      hcond ⟨Nat.le_of_eq hwell.1, fun _ => hwell.2⟩
    have hlen : sizeofRequest ≤ bytes.length := by
      by_contra hshort
      exact hcond ⟨by omega, fun heq => absurd heq (by omega)⟩
    -- such a packet is not rejected
    have hreject := (h.rejected hmal sampleStart
      { packet := some bytes, beyond := [], delivered := true } rfl).1
    rw [handleNext_receiving sampleStart rfl, if_pos hlen] at hreject
    cases hreject
  · rintro ⟨hle, hterminated⟩
    refine { taken := ?_, rejected := ?_ }
    · intro hwell fetches env hpacket
      refine ⟨_, standsFor_of_wellFormed hwell env.beyond, ?_⟩
      rw [handleNext_receiving fetches hpacket, if_pos hwell.1.ge,
        List.take_of_length_le hwell.1.le]
    · intro hmal fetches env hpacket
      have hshort : ¬ sizeofRequest ≤ bytes.length := fun hge =>
        hmal ⟨Nat.le_antisymm hle hge, hterminated (Nat.le_antisymm hle hge)⟩
      exact ⟨by rw [handleNext_receiving fetches hpacket, if_neg hshort], rfl⟩

/-- A packet full of `A` is let through although no field ends in it. -/
theorem not_treatedExactly_unterminated :
    ¬ ∀ bytes : Bytes, TreatedExactly bytes := by
  intro h
  have hmal : ¬ WellFormed (List.replicate sizeofRequest 65) := by
    rintro ⟨-, hstop, -⟩
    have h65 := List.eq_of_mem_replicate (List.mem_of_mem_take hstop)
    exact absurd h65 (by decide)
  have hreject := ((h _).rejected hmal sampleStart
    { packet := some _, beyond := [], delivered := true } rfl).1
  rw [handleNext_receiving sampleStart rfl,
    if_pos (by rw [List.length_replicate])] at hreject
  cases hreject

end BkkApi.Server.Packets
