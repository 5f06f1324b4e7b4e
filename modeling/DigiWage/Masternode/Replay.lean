import DigiWage.Masternode.Resend
import DigiWage.Net.AddrText
import DigiWage.Serialize
import DigiWage.Spork

/-!
# What a signature fixes

`GetStrMessage` of a spork, and `GetSignatureHash` and `GetStrMessage` of a masternode announcement.

* The string messages list their fields without separators. Two of them with one text have the same fields exactly when
  the fields are of the same lengths.
* `GetSignatureHash` determines the fields that it lists (`signatureData_injective`).
* No message contains the input of the masternode, so that an announcement can be sent with another one.
* An announcement of the hashed version is also taken with a signature over the text (`checkedMessages`).
-/

namespace DigiWage

open Lib

/-! ## Sporks -/

namespace CSporkMessage

variable (spork : CSporkMessage)

/-- The texts that `GetStrMessage` puts together. -/
def texts : List (List UInt8) :=
  [intToString spork.nSporkID, intToString spork.nValue, intToString spork.nTimeSigned]

def getStrMessage : List UInt8 := spork.texts.flatten

/-- The lengths of the texts. -/
def layout : List Nat := spork.texts.map List.length

/-- What the message says. -/
def content : Int × Int × Int := (spork.nSporkID, spork.nValue, spork.nTimeSigned)

end CSporkMessage

theorem CSporkMessage.content_eq_iff {a b : CSporkMessage} : a.content = b.content ↔ a.texts = b.texts := by
  simp [content, texts, intToString_injective.eq_iff]

theorem CSporkMessage.content_eq_iff_layout {a b : CSporkMessage} (h : a.getStrMessage = b.getStrMessage) :
    a.content = b.content ↔ a.layout = b.layout := by
  rw [content_eq_iff, List.eq_iff_flatten_eq]
  exact and_iff_right h

/-! ## Announcements -/

/-- The address as the class of the network code. -/
def CService.toNet (addr : CService) : Option Net.CService :=
  if h : addr.ip.length = 16 then some ⟨⟨addr.ip, h⟩, UInt16.ofNat addr.port⟩ else none

def CPubKey.serialize (key : CPubKey) : List UInt8 := writeCompactSize key.length ++ key

namespace CMasternodeBroadcast

variable (names : Net.NumericNames) (mnb : CMasternodeBroadcast)

/-- What `CMasternode::GetSignatureHash` hashes. -/
def signatureData : List UInt8 :=
  writeInt32 (Int32.ofInt mnb.nMessVersion) ++ (mnb.addr.ip ++ ((leBytes 2 mnb.addr.port).reverse ++
    (writeInt64 (Int64.ofInt mnb.sigTime) ++ (CPubKey.serialize mnb.pubKeyCollateralAddress ++
      (CPubKey.serialize mnb.pubKeyMasternode ++ writeInt32 (Int32.ofInt mnb.protocolVersion))))))

/-- The texts that `GetStrMessage` and `GetOldStrMessage` put together. -/
def texts : List (List UInt8) :=
  [(mnb.addr.toNet.map (·.toString names)).getD [], intToString mnb.sigTime, mnb.pubKeyCollateralAddress,
    mnb.pubKeyMasternode, intToString mnb.protocolVersion]

/-- The lengths of the texts. -/
def layout : List Nat := (mnb.texts names).map List.length

/-- What is signed: the hash of the data, which stands for the data, or the text. The text is no hash, because it has a colon
in it. -/
def signedData : List UInt8 ⊕ List UInt8 :=
  if mnb.nMessVersion = MESS_VER_HASH then .inl mnb.signatureData else .inr (mnb.texts names).flatten

/-- The messages for which `CheckSignature` takes a signature: if the first one fails, it tries the old format. -/
def checkedMessages : List (List UInt8 ⊕ List UInt8) := [mnb.signedData names, .inr (mnb.texts names).flatten]

/-- What the message says. -/
def content : CTxIn × CService × Int × CPubKey × CPubKey × Int :=
  (mnb.vin, mnb.addr, mnb.sigTime, mnb.pubKeyCollateralAddress, mnb.pubKeyMasternode, mnb.protocolVersion)

/-- The fields have values of their types. -/
structure Typed : Prop where
  ip : mnb.addr.ip.length = 16
  port : mnb.addr.port < 2 ^ 16
  sigTime : -2 ^ 63 ≤ mnb.sigTime ∧ mnb.sigTime < 2 ^ 63
  protocolVersion : -2 ^ 31 ≤ mnb.protocolVersion ∧ mnb.protocolVersion < 2 ^ 31
  collateralKey : mnb.pubKeyCollateralAddress.length ≤ 65
  masternodeKey : mnb.pubKeyMasternode.length ≤ 65

end CMasternodeBroadcast

theorem writeInt32_inj {n n' : Int} (hn : -2 ^ 31 ≤ n ∧ n < 2 ^ 31) (hn' : -2 ^ 31 ≤ n' ∧ n' < 2 ^ 31)
    (h : writeInt32 (Int32.ofInt n) = writeInt32 (Int32.ofInt n')) : n = n' := by
  have hread := congrArg readInt32 h
  rw [← List.append_nil (writeInt32 (Int32.ofInt n)), ← List.append_nil (writeInt32 (Int32.ofInt n')), readInt32_write,
    readInt32_write, Option.some.injEq, Prod.mk.injEq] at hread
  rw [← Int32.toInt_ofInt_of_le hn.1 hn.2, ← Int32.toInt_ofInt_of_le hn'.1 hn'.2, hread.1]

theorem writeInt64_inj {n n' : Int} (hn : -2 ^ 63 ≤ n ∧ n < 2 ^ 63) (hn' : -2 ^ 63 ≤ n' ∧ n' < 2 ^ 63)
    (h : writeInt64 (Int64.ofInt n) = writeInt64 (Int64.ofInt n')) : n = n' := by
  have hread := congrArg readInt64 h
  rw [← List.append_nil (writeInt64 (Int64.ofInt n)), ← List.append_nil (writeInt64 (Int64.ofInt n')), readInt64_write,
    readInt64_write, Option.some.injEq, Prod.mk.injEq] at hread
  rw [← Int64.toInt_ofInt_of_le hn.1 hn.2, ← Int64.toInt_ofInt_of_le hn'.1 hn'.2, hread.1]

theorem CPubKey.serialize_append_inj {key key' : CPubKey} (hkey : key.length ≤ 65) (hkey' : key'.length ≤ 65)
    {s s' : List UInt8} (h : CPubKey.serialize key ++ s = CPubKey.serialize key' ++ s') : key = key' ∧ s = s' := by
  unfold CPubKey.serialize at h
  rw [List.append_assoc, List.append_assoc] at h
  have hread := congrArg readCompactSize h
  have hmax : 65 ≤ MAX_SIZE := by decide
  rw [readCompactSize_write (by omega), readCompactSize_write (by omega), Option.some.injEq, Prod.mk.injEq] at hread
  exact List.append_inj hread.2 hread.1

namespace CMasternodeBroadcast

variable {names : Net.NumericNames} {a b : CMasternodeBroadcast}

theorem addr_eq_of_toNet (ha : a.Typed) (hb : b.Typed) (h : a.addr.toNet = b.addr.toNet) : a.addr = b.addr := by
  unfold CService.toNet at h
  rw [dif_pos ha.ip, dif_pos hb.ip, Option.some.injEq, Net.CService.mk.injEq, Net.CNetAddr.mk.injEq] at h
  have hport := congrArg UInt16.toNat h.2
  rw [UInt16.toNat_ofNat_of_lt' ha.port, UInt16.toNat_ofNat_of_lt' hb.port] at hport
  cases hx : a.addr
  cases hy : b.addr
  rw [hx, hy] at h hport
  cases h.1
  cases hport
  rfl

theorem addr_eq_of_text (ha : a.Typed) (hb : b.Typed)
    (h : (a.addr.toNet.map (·.toString names)).getD [] = (b.addr.toNet.map (·.toString names)).getD []) :
    a.addr = b.addr := by
  apply addr_eq_of_toNet ha hb
  unfold CService.toNet at h ⊢
  rw [dif_pos ha.ip, dif_pos hb.ip] at h ⊢
  exact congrArg some (Net.CService.toString_injective h)

theorem signatureData_injective (ha : a.Typed) (hb : b.Typed) (h : a.signatureData = b.signatureData) :
    a.addr = b.addr ∧ a.sigTime = b.sigTime ∧ a.pubKeyCollateralAddress = b.pubKeyCollateralAddress ∧
      a.pubKeyMasternode = b.pubKeyMasternode ∧ a.protocolVersion = b.protocolVersion := by
  unfold signatureData at h
  obtain ⟨-, h⟩ := List.append_inj h (by simp [writeInt32])
  obtain ⟨hip, h⟩ := List.append_inj h (by rw [ha.ip, hb.ip])
  obtain ⟨hport, h⟩ := List.append_inj h (by simp)
  obtain ⟨htime, h⟩ := List.append_inj h (by simp [writeInt64])
  obtain ⟨hkey, h⟩ := CPubKey.serialize_append_inj ha.collateralKey hb.collateralKey h
  obtain ⟨hkey', hversion⟩ := CPubKey.serialize_append_inj ha.masternodeKey hb.masternodeKey h
  have hport := (leBytes_inj ha.port hb.port).mp (List.reverse_inj.mp hport)
  refine ⟨?_, writeInt64_inj ha.sigTime hb.sigTime htime, hkey, hkey',
    writeInt32_inj ha.protocolVersion hb.protocolVersion hversion⟩
  cases hx : a.addr
  cases hy : b.addr
  rw [hx, hy] at hip hport
  cases hip
  cases hport
  rfl

theorem texts_eq_iff (ha : a.Typed) (hb : b.Typed) : a.texts names = b.texts names ↔
    a.addr = b.addr ∧ a.sigTime = b.sigTime ∧ a.pubKeyCollateralAddress = b.pubKeyCollateralAddress ∧
      a.pubKeyMasternode = b.pubKeyMasternode ∧ a.protocolVersion = b.protocolVersion := by
  constructor
  · intro h
    simp only [texts, List.cons.injEq, and_true] at h
    obtain ⟨haddr, htime, hkey, hkey', hversion⟩ := h
    exact ⟨addr_eq_of_text ha hb haddr, intToString_injective htime, hkey, hkey', intToString_injective hversion⟩
  · rintro ⟨haddr, htime, hkey, hkey', hversion⟩
    simp only [texts, haddr, htime, hkey, hkey', hversion]

theorem inl_mem_checkedMessages {data : List UInt8} : .inl data ∈ a.checkedMessages names ↔
    a.nMessVersion = MESS_VER_HASH ∧ data = a.signatureData := by
  unfold checkedMessages signedData
  split <;> simp_all

theorem inr_mem_checkedMessages {text : List UInt8} : .inr text ∈ a.checkedMessages names ↔
    text = (a.texts names).flatten := by
  unfold checkedMessages signedData
  split <;> simp

/-- `CheckSignature` looks at these messages. -/
theorem checkSignature_eq {signer : MessageSigner}
    (h : signer.serviceToString a.addr = (a.addr.toNet.map (·.toString names)).getD []) :
    a.checkSignature signer = (a.checkedMessages names).any fun message =>
      signer.verifyMessage a.pubKeyCollateralAddress a.vchSig (message.elim (fun _ => a.getSignatureHash signer) id) := by
  have htext : a.getOldStrMessage signer = (a.texts names).flatten := by simp [getOldStrMessage, texts, h]
  unfold checkSignature checkedMessages signedData getStrMessage
  rw [htext]
  split <;> simp

theorem content_eq_iff (ha : a.Typed) (hb : b.Typed)
    (h : ∃ message ∈ a.checkedMessages names, message ∈ b.checkedMessages names) :
    a.content = b.content ↔ a.vin = b.vin ∧ a.layout names = b.layout names := by
  have hcontent : a.content = b.content ↔ a.vin = b.vin ∧ a.texts names = b.texts names := by
    rw [texts_eq_iff ha hb]
    simp only [content, Prod.mk.injEq]
  rw [hcontent]
  apply and_congr_right
  intro _
  obtain ⟨message, hm, hm'⟩ := h
  cases message with
  | inl data =>
    -- the hash fixes the texts
    obtain ⟨-, hdata⟩ := inl_mem_checkedMessages.mp hm
    obtain ⟨-, hdata'⟩ := inl_mem_checkedMessages.mp hm'
    have htexts : a.texts names = b.texts names :=
      (texts_eq_iff ha hb).mpr (signatureData_injective ha hb (hdata.symm.trans hdata'))
    exact iff_of_true htexts (congrArg (List.map List.length) htexts)
  | inr text =>
    rw [List.eq_iff_flatten_eq]
    exact and_iff_right ((inr_mem_checkedMessages.mp hm).symm.trans (inr_mem_checkedMessages.mp hm'))

end CMasternodeBroadcast

/-- **Replays.** A signature fixes the content of a message, but for the borders between the fields of a string message and the input
of an announcement. -/
theorem signedData_fixes_iff (names : Net.NumericNames) :
    (∀ a b : CSporkMessage, a.getStrMessage = b.getStrMessage → (a.content = b.content ↔ a.layout = b.layout)) ∧
    ∀ a b : CMasternodeBroadcast, a.Typed → b.Typed →
      (∃ message ∈ a.checkedMessages names, message ∈ b.checkedMessages names) →
      (a.content = b.content ↔ a.vin = b.vin ∧ a.layout names = b.layout names) :=
  ⟨fun _ _ => CSporkMessage.content_eq_iff_layout, fun _ _ => CMasternodeBroadcast.content_eq_iff⟩

/-- A compressed key. -/
def compressedKey (n : UInt8) : CPubKey := 2 :: List.replicate 32 n

/-- An announcement for an output of transaction 5, at an address of the loopback network. -/
def signedBroadcast (n : Nat) (port : Nat) (sigTime nMessVersion : Int) : CMasternodeBroadcast :=
  let vin : CTxIn := ⟨⟨5, n⟩, ([] : List UInt8), 2 ^ 32 - 1⟩
  ⟨vin, ⟨Net.CNetAddr.pchIPv4 ++ [127, 0, 0, 1], port⟩, compressedKey 1, compressedKey 2, [], sigTime, 70915,
    ⟨vin, 7, sigTime, nMessVersion, []⟩, nMessVersion⟩

theorem typed_signedBroadcast (n : Nat) {port : Nat} {sigTime : Int} (nMessVersion : Int) (hport : port < 2 ^ 16)
    (hlow : -2 ^ 63 ≤ sigTime) (hhigh : sigTime < 2 ^ 63) : (signedBroadcast n port sigTime nMessVersion).Typed where
  ip := rfl
  port := hport
  sigTime := ⟨hlow, hhigh⟩
  protocolVersion := (by decide : -2 ^ 31 ≤ (70915 : Int) ∧ (70915 : Int) < 2 ^ 31)
  collateralKey := (by decide : (compressedKey 1).length ≤ 65)
  masternodeKey := (by decide : (compressedKey 2).length ≤ 65)

/-- The port loses a digit to the time. -/
theorem texts_signedBroadcast : ((signedBroadcast 0 46005 1600000000 0).texts Net.dottedNames).flatten =
    ((signedBroadcast 0 4600 51600000000 1).texts Net.dottedNames).flatten := by decide +kernel

/-- Two sporks whose values have different lengths, and a text that is signed for one announcement and taken for another one of the
hashed version. -/
theorem signedData_fixes_iff_replayed :
    (∃ a b : CSporkMessage, a.getStrMessage = b.getStrMessage ∧ a.content ≠ b.content) ∧
    ∃ a b : CMasternodeBroadcast, a.nMessVersion ≠ MESS_VER_HASH ∧ b.nMessVersion = MESS_VER_HASH ∧
      a.signedData Net.dottedNames ∈ b.checkedMessages Net.dottedNames ∧ a.content ≠ b.content := by
  have h := signedData_fixes_iff Net.dottedNames
  refine ⟨⟨⟨10001, 1, 1600000000, 0, []⟩, ⟨10001, 11, 600000000, 0, []⟩, by decide +kernel, fun heq => ?_⟩,
    signedBroadcast 0 46005 1600000000 0, signedBroadcast 0 4600 51600000000 1, by decide, rfl, ?_, fun heq => ?_⟩
  · have hlayout := (h.1 _ _ (by decide +kernel)).mp heq
    revert hlayout
    decide +kernel
  · exact CMasternodeBroadcast.inr_mem_checkedMessages.mpr texts_signedBroadcast
  · have hcommon : ∃ message ∈ (signedBroadcast 0 46005 1600000000 0).checkedMessages Net.dottedNames,
        message ∈ (signedBroadcast 0 4600 51600000000 1).checkedMessages Net.dottedNames :=
      ⟨.inr _, CMasternodeBroadcast.inr_mem_checkedMessages.mpr rfl,
        CMasternodeBroadcast.inr_mem_checkedMessages.mpr texts_signedBroadcast⟩
    have hlayout := ((h.2 _ _ (typed_signedBroadcast 0 0 (by decide) (by decide) (by decide))
      (typed_signedBroadcast 0 1 (by decide) (by decide) (by decide)) hcommon).mp heq).2
    revert hlayout
    decide +kernel

/-- A digit moves from the time of a spork to its value, or from the port of an announcement to its time, and an
announcement gets another input. -/
theorem not_signedData_fixes :
    (¬ ∀ a b : CSporkMessage, a.nMessVersion ≠ MESS_VER_HASH → b.nMessVersion ≠ MESS_VER_HASH →
      a.getStrMessage = b.getStrMessage → a.content = b.content) ∧
    ∀ nMessVersion ∈ [0, 1], ¬ ∀ a b : CMasternodeBroadcast, a.Typed → b.Typed → a.nMessVersion = nMessVersion →
      b.nMessVersion = nMessVersion → a.signedData Net.dottedNames = b.signedData Net.dottedNames →
        a.content = b.content := by
  constructor
  · intro h
    have h := h ⟨10001, 1, 1600000000, 0, []⟩ ⟨10001, 11, 600000000, 0, []⟩ (by decide) (by decide) (by decide +kernel)
    revert h
    decide
  · intro nMessVersion hv h
    simp only [List.mem_cons, List.not_mem_nil, or_false] at hv
    rcases hv with rfl | rfl
    · have h := h (signedBroadcast 0 46005 1600000000 0) (signedBroadcast 0 4600 51600000000 0)
        (typed_signedBroadcast 0 0 (by decide) (by decide) (by decide))
        (typed_signedBroadcast 0 0 (by decide) (by decide) (by decide)) rfl rfl
        (congrArg Sum.inr texts_signedBroadcast)
      revert h
      decide
    · have h := h (signedBroadcast 0 46005 1600000000 1) (signedBroadcast 1 46005 1600000000 1)
        (typed_signedBroadcast 0 1 (by decide) (by decide) (by decide))
        (typed_signedBroadcast 1 1 (by decide) (by decide) (by decide)) rfl rfl (by decide)
      revert h
      decide

end DigiWage
