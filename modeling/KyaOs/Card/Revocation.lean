import KyaOs.Json.Value
import KyaOs.StatusList.Manager

/-!
# The card's revocation checker

`createRevocationChecker` over the same payload primitives as the status list
manager, with a policy of its own: every failure reads as revoked. `Date.parse`
is a parameter, `none` for `NaN`.
-/

namespace KyaOs

open Js

/-- The bit at an index that `parseStatusListIndex` let through. -/
def readStatusBit (bits : List UInt8) (index : Nat) : Except Error Bool :=
  match bits[index / 8]? with
  | none => .error (.error (js "Bit index " ++ decimalText index ++
      js " out of range for the status list"))
  | some byte => .ok (byte &&& bitMask (index % 8) ≠ 0)

namespace Card

/-- Verdict for one status entry. -/
structure RevocationStatus where
  revoked : Bool
  fresh : Bool
  deriving DecidableEq

structure BitstringStatusListEntry where
  statusListCredential : JsString
  statusListIndex : JsString

structure SafeFetchResponse where
  ok : Bool
  status : Nat
  json : Except Error Json

structure RevocationCheckerDeps where
  fetch : JsString → Except Error SafeFetchResponse
  /-- The clock's answer, in milliseconds. -/
  now : JsNumber
  statusPurpose : Option JsString := none
  verifyStatusList : Option (Json → Except Error Bool) := none
  /-- Only its decompressor is used. -/
  codec : GzipCodec
  dateParse : JsString → Option Int

/-- Status indeterminate, so revoked and not fresh. -/
def failClosed : RevocationStatus := { revoked := true, fresh := false }

/-- A member of a record; `none` when it is `undefined`. -/
def member (record : Json) (name : JsString) : Option Json := record.child (.key name)

def isRecord : Json → Bool
  | .object _ => true
  | _ => false

namespace RevocationCheckerDeps

variable (deps : RevocationCheckerDeps)

def wantedPurpose : JsString := deps.statusPurpose.getD (js "revocation")

def fetchStatusList (url : JsString) : Except Error Json := do
  let res ← deps.fetch url
  if ¬ res.ok then
    throw (.error (js "revocation: status-list GET " ++ url ++ js " → " ++ decimalText res.status))
  else
    let body ← res.json
    if isRecord body then return body
    else throw (.error (js "revocation: status-list credential is not an object"))

/-- The injected proof check, when there is one. -/
def checkListProof (credential : Json) : Except Error Unit :=
  match deps.verifyStatusList with
  | none => .ok ()
  | some verifyStatusList => do
      if ← verifyStatusList credential then return ()
      else throw (.error (js "revocation: status-list proof rejected"))

end RevocationCheckerDeps

def statusListSubject (credential : Json) : Except Error Json :=
  match member credential (js "credentialSubject") with
  | some (.object members) => .ok (.object members)
  | _ => .error (.error (js "revocation: status-list has no credentialSubject"))

/-- A value where the code asks for a string. -/
def asString : Option Json → Option JsString
  | some (.string text) => some text
  | _ => none

def decodeStatusList (codec : GzipCodec) (credential : Json) : Except Error (List UInt8) := do
  let subject ← statusListSubject credential
  match asString (member subject (js "encodedList")) with
  | some encoded =>
      if encoded = [] then throw (.error (js "revocation: status-list has no encodedList"))
      else decodeStatusListPayload codec encoded
  | none => throw (.error (js "revocation: status-list has no encodedList"))

/-- A date member as `parseDate` reads it. -/
inductive DateBound where
  | absent
  | unparseable
  | at (ms : Int)

def parseDate (dateParse : JsString → Option Int) : Option Json → DateBound
  | none => .absent
  | some (.string text) =>
      match dateParse text with
      | some ms => .at ms
      | none => .unparseable
  | some _ => .unparseable

/-- The VC 2.0 member when present, else its VC 1.1 predecessor. -/
def firstPresent (current legacy : Option Json) : Option Json :=
  match current with
  | some value => some value
  | none => legacy

/-- Whether `now` falls inside the credential's window, as far as it declares one. -/
def isLive (dateParse : JsString → Option Int) (credential : Json) (now : JsNumber) : Bool :=
  let validUntil := parseDate dateParse
    (firstPresent (member credential (js "validUntil")) (member credential (js "expirationDate")))
  let validFrom := parseDate dateParse
    (firstPresent (member credential (js "validFrom")) (member credential (js "issuanceDate")))
  match validUntil, validFrom with
  | .unparseable, _ | _, .unparseable => false
  | .absent, .absent => true
  | .at untilMs, .absent => !now.gtInt untilMs
  | .absent, .at fromMs => !now.ltInt fromMs
  | .at untilMs, .at fromMs => !now.gtInt untilMs && !now.ltInt fromMs

/-- What the checker does inside its `try`. -/
def readRevocationStatus (deps : RevocationCheckerDeps) (entry : BitstringStatusListEntry) :
    Except Error RevocationStatus := do
  let credential ← deps.fetchStatusList entry.statusListCredential
  deps.checkListProof credential
  let subject ← statusListSubject credential
  assertStatusPurpose (asString (member subject (js "statusPurpose"))) deps.wantedPurpose
  let bits ← decodeStatusList deps.codec credential
  let index ← parseStatusListIndex entry.statusListIndex
  let revoked ← readStatusBit bits index
  return { revoked, fresh := isLive deps.dateParse credential deps.now }

def createRevocationChecker (deps : RevocationCheckerDeps) (entry : BitstringStatusListEntry) :
    Except Error RevocationStatus :=
  tryCatch (readRevocationStatus deps entry) fun _ => .ok failClosed

section Agreement

variable {Proof : Type} {manager : StatusListManager Proof} {deps : RevocationCheckerDeps}

/-- A JSON body is a status-list credential: its subject has that credential's purpose
and list. Its other members are free. -/
structure Serves (body : Json) (statusList : StatusListCredential Proof) : Prop where
  isRecord : isRecord body = true
  subject : ∃ members, member body (js "credentialSubject") = some (.object members) ∧
    asString (members.lookup (js "statusPurpose")) = statusList.statusPurpose ∧
    members.lookup (js "encodedList") = some (.string statusList.encodedList)

theorem readStatusBit_eq (bytes : List UInt8) (index : Nat) {bit : Bool} :
    readStatusBit bytes index = .ok bit ↔
      BitstringManager.getBit { bits := bytes, size := bytes.length * 8 } index = .ok bit := by
  rw [readStatusBit, BitstringManager.getBit]
  by_cases hindex : index / 8 < bytes.length
  · have hinside : ¬ bytes.length * 8 ≤ index := by omega
    rw [if_neg hinside, List.getElem?_eq_getElem hindex, List.getD_eq_getElem?_getD,
      List.getElem?_eq_getElem hindex]
    rfl
  · have houtside : bytes.length * 8 ≤ index := by omega
    rw [if_pos houtside, List.getElem?_eq_none (by omega)]
    exact iff_of_false nofun nofun

/-- What a reader that answers has established about the bit. -/
theorem getBit_ok {bytes : List UInt8} {index : Nat} {bit : Bool}
    (h : BitstringManager.getBit { bits := bytes, size := bytes.length * 8 } index = .ok bit) :
    index < bytes.length * 8 ∧ (bitsOf bytes)[index]? = some bit := by
  rw [BitstringManager.getBit] at h
  split at h
  · cases h
  · rename_i hindex
    have hlt : index < bytes.length * 8 := by simpa using hindex
    have hbyte : index / 8 < bytes.length := by omega
    refine ⟨hlt, ?_⟩
    cases h
    rw [getElem?_bitsOf, List.getElem?_eq_getElem hbyte, List.getD_eq_getElem?_getD,
      List.getElem?_eq_getElem hbyte]
    rfl

theorem decodeStatusList_ok {codec : GzipCodec} {body : Json}
    {statusList : StatusListCredential Proof} (hserves : Serves body statusList)
    (hcodec : codec.decompress = manager.codec.decompress) {bytes : List UInt8} :
    decodeStatusList codec body = .ok bytes ↔
      decodeStatusListPayload manager.codec statusList.encodedList = .ok bytes := by
  obtain ⟨members, hsubject, -, hlist⟩ := hserves.subject
  have hpayload : decodeStatusListPayload codec statusList.encodedList =
      decodeStatusListPayload manager.codec statusList.encodedList := by
    rw [decodeStatusListPayload, decodeStatusListPayload, hcodec]
  have hdecode : decodeStatusList codec body =
      if statusList.encodedList = [] then
        .error (.error (js "revocation: status-list has no encodedList"))
      else decodeStatusListPayload manager.codec statusList.encodedList := by
    rw [decodeStatusList, statusListSubject, hsubject, ← hpayload]
    simp only [bind, Except.bind, member, Json.child, hlist, asString]
    rfl
  rw [hdecode]
  by_cases hempty : statusList.encodedList = []
  · rw [if_pos hempty, hempty]
    exact iff_of_false nofun nofun
  · rw [if_neg hempty]

/-- The checker answers inside its `try` exactly what `checkStatus` answers. -/
theorem readRevocationStatus_ok {credentialStatus : CredentialStatus} {body : Json}
    {status : Nat} {statusList : StatusListCredential Proof}
    (hfetch : deps.fetch credentialStatus.statusListCredential =
      .ok { ok := true, status, json := .ok body })
    (hserves : Serves body statusList) (hproof : deps.verifyStatusList = none)
    (hcodec : deps.codec.decompress = manager.codec.decompress)
    (hpurpose : deps.wantedPurpose = credentialStatus.statusPurpose) {bit : Bool} :
    (∃ fresh, readRevocationStatus deps
        { statusListCredential := credentialStatus.statusListCredential
          statusListIndex := credentialStatus.statusListIndex } = .ok { revoked := bit, fresh }) ↔
      manager.checkStatus (some statusList) credentialStatus = .ok bit := by
  obtain ⟨members, hsubject, hkind, hlist⟩ := hserves.subject
  have hbody : deps.fetchStatusList credentialStatus.statusListCredential = .ok body := by
    simp [RevocationCheckerDeps.fetchStatusList, hfetch, hserves.isRecord, bind, Except.bind, pure,
      Except.pure]
  have hlistProof : deps.checkListProof body = .ok () := by
    rw [RevocationCheckerDeps.checkListProof, hproof]
  have hmembers : statusListSubject body = .ok (.object members) := by
    rw [statusListSubject, hsubject]
  have hkind' : asString (member (.object members) (js "statusPurpose")) =
      statusList.statusPurpose := hkind
  constructor
  · rintro ⟨fresh, h⟩
    obtain ⟨credential, hcredential, h⟩ := bind_eq_ok.mp h
    obtain rfl : body = credential := Except.ok.inj (hbody.symm.trans hcredential)
    obtain ⟨-, -, h⟩ := bind_eq_ok.mp h
    obtain ⟨subject, hsubject', h⟩ := bind_eq_ok.mp h
    obtain rfl : .object members = subject := Except.ok.inj (hmembers.symm.trans hsubject')
    obtain ⟨_, hassert, h⟩ := bind_eq_ok.mp h
    obtain ⟨bytes, hbytes, h⟩ := bind_eq_ok.mp h
    obtain ⟨index, hindex, h⟩ := bind_eq_ok.mp h
    obtain ⟨bit', hbit, h⟩ := bind_eq_ok.mp h
    cases h
    rw [hkind', hpurpose] at hassert
    refine bind_eq_ok.mpr ⟨(), hassert, bind_eq_ok.mpr ⟨_, bind_eq_ok.mpr
      ⟨bytes, (decodeStatusList_ok hserves hcodec).mp hbytes, rfl⟩, ?_⟩⟩
    exact bind_eq_ok.mpr ⟨index, hindex, (readStatusBit_eq bytes index).mp hbit⟩
  · intro h
    obtain ⟨_, hassert, h⟩ := bind_eq_ok.mp h
    obtain ⟨bitstring, hdecode, h⟩ := bind_eq_ok.mp h
    obtain ⟨index, hindex, hbit⟩ := bind_eq_ok.mp h
    obtain ⟨bytes, hbytes, hsize⟩ := bind_eq_ok.mp hdecode
    cases hsize
    refine ⟨isLive deps.dateParse body deps.now, bind_eq_ok.mpr ⟨body, hbody, bind_eq_ok.mpr
      ⟨(), hlistProof, bind_eq_ok.mpr ⟨_, hmembers, bind_eq_ok.mpr ⟨(), ?_, ?_⟩⟩⟩⟩⟩
    · rw [hkind', hpurpose]
      exact hassert
    · exact bind_eq_ok.mpr ⟨bytes, (decodeStatusList_ok hserves hcodec).mpr hbytes,
        bind_eq_ok.mpr ⟨index, hindex, bind_eq_ok.mpr
          ⟨bit, (readStatusBit_eq bytes index).mpr hbit, rfl⟩⟩⟩

/-- An index text that names a clear bit of the decoded list. -/
def NamesClearBit (statusListIndex : JsString) (bytes : List UInt8) : Prop :=
  statusListIndex ≠ [] ∧ statusListIndex.all isDigit = true ∧
    decimalValue statusListIndex < bytes.length * 8 ∧ bytes.length * 8 ≤ 2 ^ 27 ∧
    (bitsOf bytes)[decimalValue statusListIndex]? = some false

theorem checkStatus_false {statusList : StatusListCredential Proof}
    {credentialStatus : CredentialStatus}
    (h : manager.checkStatus (some statusList) credentialStatus = .ok false) :
    ∃ bytes, decodeStatusListPayload manager.codec statusList.encodedList = .ok bytes ∧
      NamesClearBit credentialStatus.statusListIndex bytes := by
  obtain ⟨_, -, h⟩ := bind_eq_ok.mp h
  obtain ⟨bitstring, hdecode, h⟩ := bind_eq_ok.mp h
  obtain ⟨index, hindex, hbit⟩ := bind_eq_ok.mp h
  obtain ⟨bytes, hbytes, hsize⟩ := bind_eq_ok.mp hdecode
  cases hsize
  obtain ⟨hlt, hclear⟩ := getBit_ok hbit
  have hcap := (decodeStatusListPayload_ok hbytes).2
  rw [maxStatusListBytes] at hcap
  rw [parseStatusListIndex] at hindex
  split at hindex
  · cases hindex
  · rename_i hdigits
    split at hindex
    · cases hindex
    · cases hindex
      simp only [not_or, not_not] at hdigits
      exact ⟨bytes, hbytes, hdigits.1, hdigits.2, hlt, by omega, hclear⟩

/-- The two revocation readers agree on every credential, entry and decompressor. -/
theorem revocation_readers_agree {credentialStatus : CredentialStatus} {body : Json} {status : Nat}
    {statusList : StatusListCredential Proof}
    (hfetch : deps.fetch credentialStatus.statusListCredential =
      .ok { ok := true, status, json := .ok body })
    (hserves : Serves body statusList) (hproof : deps.verifyStatusList = none)
    (hcodec : deps.codec.decompress = manager.codec.decompress)
    (hpurpose : deps.wantedPurpose = credentialStatus.statusPurpose) :
    ∃ verdict, createRevocationChecker deps
        { statusListCredential := credentialStatus.statusListCredential
          statusListIndex := credentialStatus.statusListIndex } = .ok verdict ∧
      (verdict.revoked = false ↔
        manager.checkStatus (some statusList) credentialStatus = .ok false) ∧
      (verdict.revoked = false →
        ∃ bytes, decodeStatusListPayload manager.codec statusList.encodedList = .ok bytes ∧
          NamesClearBit credentialStatus.statusListIndex bytes) := by
  let entry : BitstringStatusListEntry :=
    { statusListCredential := credentialStatus.statusListCredential
      statusListIndex := credentialStatus.statusListIndex }
  have hread := @readRevocationStatus_ok Proof manager deps credentialStatus body status statusList
    hfetch hserves hproof hcodec hpurpose false
  have hagree : ∃ verdict, createRevocationChecker deps entry = .ok verdict ∧
      (verdict.revoked = false ↔
        manager.checkStatus (some statusList) credentialStatus = .ok false) := by
    rw [createRevocationChecker]
    cases hanswer : readRevocationStatus deps entry with
    | error thrown =>
      refine ⟨failClosed, rfl, iff_of_false nofun fun hcheck => ?_⟩
      obtain ⟨fresh, hclear⟩ := hread.mpr hcheck
      exact nomatch hanswer.symm.trans hclear
    | ok verdict =>
      refine ⟨verdict, rfl, ?_⟩
      rw [← hread]
      constructor
      · intro hclear
        exact ⟨verdict.fresh, hanswer.trans (by rw [← hclear])⟩
      · rintro ⟨fresh, hclear⟩
        exact congrArg RevocationStatus.revoked (Except.ok.inj (hanswer.symm.trans hclear))
  obtain ⟨verdict, hverdict, hiff⟩ := hagree
  exact ⟨verdict, hverdict, hiff, fun hclear => checkStatus_false (hiff.mp hclear)⟩

/-- GZIP of one zero byte is all this codec is asked for. -/
def zeroByteGzip : GzipCodec where
  compress bytes := 0x1F :: 0x8B :: bytes
  decompress compressed :=
    if compressed =
      [0x1F, 0x8B, 0x08, 0, 0, 0, 0, 0, 0, 0x03, 0x63, 0, 0, 0x8D, 0xEF, 0x02, 0xD2, 1, 0, 0, 0]
    then .ok [0x00]
    else .error (.error (js "incorrect header check"))

def zeroByteList : StatusListCredential Unit where
  context := [js "https://www.w3.org/2018/credentials/v1"]
  id := js "https://issuer/status/1"
  type := [js "VerifiableCredential", js "StatusList2021Credential"]
  issuer := js "did:web:issuer"
  issuanceDate := js "2025-01-01T00:00:00Z"
  subjectId := none
  subjectType := js "StatusList2021"
  statusPurpose := some (js "revocation")
  encodedList := js "uH4sIAAAAAAAAA2MAAI3vAtIBAAAA"
  proof := none

def zeroByteBody : Json :=
  .object [(js "credentialSubject", .object
    [(js "statusPurpose", .string (js "revocation")),
      (js "encodedList", .string zeroByteList.encodedList)])]

def zeroByteManager : StatusListManager Unit where
  codec := zeroByteGzip
  did := js "did:web:issuer"
  keyId := js "did:web:issuer#key"
  canonicalizeJSON credential := .ok credential.encodedList
  defaultListSize := some (.ofNat 8)
  arrayLimit := 2 ^ 32

def zeroByteDeps : RevocationCheckerDeps where
  fetch _ := .ok { ok := true, status := 200, json := .ok zeroByteBody }
  now := .ofNat 0
  codec := zeroByteGzip
  dateParse _ := none

def thirdBit : CredentialStatus where
  type := js "StatusList2021Entry"
  statusPurpose := js "revocation"
  statusListIndex := js "3"
  statusListCredential := zeroByteList.id

theorem revocation_readers_agree_thirdBit :
    zeroByteManager.checkStatus (some zeroByteList) thirdBit = .ok false ∧
      ∃ verdict, createRevocationChecker zeroByteDeps
          { statusListCredential := thirdBit.statusListCredential
            statusListIndex := thirdBit.statusListIndex } = .ok verdict ∧
        (verdict.revoked = false ↔
          zeroByteManager.checkStatus (some zeroByteList) thirdBit = .ok false) ∧
        (verdict.revoked = false →
          ∃ bytes,
            decodeStatusListPayload zeroByteManager.codec zeroByteList.encodedList = .ok bytes ∧
              NamesClearBit thirdBit.statusListIndex bytes) := by
  have hserves : Serves zeroByteBody zeroByteList :=
    { isRecord := rfl
      subject := ⟨_, rfl, by decide +kernel, rfl⟩ }
  exact ⟨by decide +kernel, revocation_readers_agree rfl hserves rfl rfl (by decide)⟩

end Agreement

end Card

end KyaOs
