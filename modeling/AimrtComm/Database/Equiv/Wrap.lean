import AimrtComm.Database.Wrap

/-!
## The wrap file and its key

A wrap file that was written as a whole is read back as it was (`readWrap_bytes`), and the key in it
is the master key it was made for (`decryptMk_wrapBlob`); a file that is shorter than the format or
starts with other bytes than the magic is not read at all (`readWrap_of_short`,
`readWrap_of_not_magic`).  So what `encrypt_mk` leaves behind is either the old file, or a truncated
one without a key, or a file with the new key (`encryptMk_of_opensWrap`).
-/

namespace AimrtComm.Database

/-! ### Reading and writing -/

theorem WrapBlob.length_bytes (blob : WrapBlob) : blob.bytes.length = 100 := by
  unfold WrapBlob.bytes
  simp only [List.length_append, Bytes.length_eq]

/-- **The wrap file is read back as it was written.** -/
theorem readWrap_bytes {blob : WrapBlob} (h : blob.isValid) :
    readWrap (some blob.bytes) = some blob := by
  have hmagic : blob.magic = magic := eq_of_beq h
  have hnoise : Bytes.take? 16 blob.noise.val = some (blob.noise, []) := by
    conv_lhs => rw [← List.append_nil blob.noise.val]
    exact Bytes.take?_append blob.noise []
  unfold readWrap WrapBlob.bytes
  simp only [Option.bind_eq_bind, Option.bind_some, Bytes.take?_append, hmagic, ne_eq,
    not_true_eq_false, if_false, hnoise, Option.pure_def]
  rw [← hmagic]

/-- A file that is shorter than the format is not read. -/
theorem readWrap_of_short {bytes : List UInt8} (h : bytes.length < 100) :
    readWrap (some bytes) = none := by
  rcases hread : readWrap (some bytes) with _ | blob
  · rfl
  -- every field that was read used up its length
  exfalso
  unfold readWrap at hread
  simp only [Option.bind_eq_bind, Option.bind_some, Option.bind_eq_some_iff] at hread
  obtain ⟨⟨b₁, r₁⟩, h₁, hread⟩ := hread
  dsimp only at hread
  split_ifs at hread
  simp only [Option.bind_eq_some_iff] at hread
  obtain ⟨⟨b₂, r₂⟩, h₂, ⟨b₃, r₃⟩, h₃, ⟨b₄, r₄⟩, h₄, ⟨b₅, r₅⟩, h₅, ⟨b₆, r₆⟩, h₆, -⟩ := hread
  have hmagic := Bytes.length_of_take? h₁
  have hsalt : r₁.length = 16 + r₂.length := Bytes.length_of_take? h₂
  have hiv : r₂.length = 12 + r₃.length := Bytes.length_of_take? h₃
  have htag : r₃.length = 16 + r₄.length := Bytes.length_of_take? h₄
  have hct : r₄.length = 32 + r₅.length := Bytes.length_of_take? h₅
  have hnoise : r₅.length = 16 + r₆.length := Bytes.length_of_take? h₆
  omega

/-- A file that does not start with the magic is not read. -/
theorem readWrap_of_not_magic {bytes : List UInt8} (h : bytes.take 8 ≠ magic.val) :
    readWrap (some bytes) = none := by
  unfold readWrap
  simp only [Option.bind_eq_bind, Option.bind_some]
  rcases hread : Bytes.take? 8 bytes with _ | ⟨start, rest⟩
  · rfl
  have hstart : start ≠ magic := by
    rintro rfl
    exact h (Bytes.take_of_take? hread)
  show (if start ≠ magic then none else _) = none
  exact if_pos hstart

/-! ### The key in the file -/

variable {c : Crypto} {device : Device}

/-- The noise that `make_shift_salt` is given is the noise it leaves, and all that it depends on. -/
theorem makeShiftSalt_eq (time pid time' pid' : UInt64) (noise : Bytes 16) :
    makeShiftSalt c device time pid noise =
      ((makeShiftSalt c device time' pid' noise).1, noise) := by
  have hne : noise.val.isEmpty = false := by
    rw [List.isEmpty_eq_false_iff, ← List.length_pos_iff, noise.length_eq]
    decide
  unfold makeShiftSalt
  rw [hne]
  rfl

theorem isValid_wrapBlob (time pid : UInt64) (mk : Bytes 32) (salt : Bytes 16) (iv : Bytes 12) :
    (wrapBlob c device time pid mk salt iv).isValid :=
  beq_self_eq_true magic

/-- **The key in a wrap file is the one it was made for.** -/
theorem decryptMk_wrapBlob (time pid : UInt64) (mk : Bytes 32) (salt : Bytes 16) (iv : Bytes 12)
    (outMk : List UInt8) :
    decryptMk c device (some (wrapBlob c device time pid mk salt iv).bytes) outMk =
      (true, mk.val) := by
  unfold decryptMk
  rw [readWrap_bytes (isValid_wrapBlob time pid mk salt iv)]
  unfold wrapBlob
  rw [makeShiftSalt_eq time pid 0 0]
  dsimp only
  rw [c.decrypt_encrypt]

/-- There is no key in a file that is not read. -/
theorem decryptMk_of_readWrap_eq_none {file : Option (List UInt8)} (h : readWrap file = none)
    (outMk : List UInt8) : decryptMk c device file outMk = (false, outMk) := by
  unfold decryptMk
  rw [h]

/-- There is no key in a file that is shorter than the format. -/
theorem decryptMk_of_short {bytes : List UInt8} (h : bytes.length < 100) (outMk : List UInt8) :
    decryptMk c device (some bytes) outMk = (false, outMk) :=
  decryptMk_of_readWrap_eq_none (readWrap_of_short h) outMk

/-! ### What `encrypt_mk` leaves -/

/-- The calls of `encrypt_mk` get as far as opening the wrap file for writing. -/
def WrapCalls.opensWrap (calls : WrapCalls) : Bool :=
  calls.devid && calls.mkBuf.isSome && calls.salt.isSome && calls.hkdf && calls.iv.isSome &&
    calls.gcm && calls.write != .notOpened

/-- Before the wrap file is opened nothing happens. -/
theorem encryptMk_of_not_opensWrap (c : Crypto) (device : Device) {calls : WrapCalls}
    (h : calls.opensWrap = false)
    (file : Option (List UInt8)) (outMk : List UInt8) :
    encryptMk c device calls file outMk = (.returned false, outMk, file) := by
  unfold encryptMk
  split
  · rename_i mk salt iv hdevid hmk hsalt hhkdf hiv hgcm
    have hwrite : calls.write = .notOpened := by
      unfold WrapCalls.opensWrap at h
      rw [hdevid, hmk, hsalt, hhkdf, hiv, hgcm] at h
      simpa using h
    rw [hwrite]
    rfl
  · rfl

/-- Once the wrap file is opened, it holds the new key, or a part of the new file. -/
theorem encryptMk_of_opensWrap (c : Crypto) (device : Device) {calls : WrapCalls}
    (h : calls.opensWrap = true)
    (file : Option (List UInt8)) (outMk : List UInt8) :
    ∃ mk bytes, calls.mkBuf = some mk ∧ bytes.length = 100 ∧
      (∀ outMk, decryptMk c device (some bytes) outMk = (true, mk.val)) ∧
      encryptMk c device calls file outMk =
        match calls.write with
        | .failed written => (.returned false, outMk, some (bytes.take written))
        | .notPermitted => (.thrown, outMk, some bytes)
        | .done => (.returned true, mk.val, some bytes)
        | _ => (.returned false, outMk, some bytes) := by
  unfold WrapCalls.opensWrap at h
  simp only [Bool.and_eq_true, Option.isSome_iff_exists, bne_iff_ne] at h
  obtain ⟨⟨⟨⟨⟨⟨hdevid, mk, hmk⟩, salt, hsalt⟩, hhkdf⟩, iv, hiv⟩, hgcm⟩, hwrite⟩ := h
  refine ⟨mk, (wrapBlob c device calls.time calls.pid mk salt iv).bytes, hmk,
    WrapBlob.length_bytes _, decryptMk_wrapBlob _ _ mk salt iv, ?_⟩
  unfold encryptMk
  rw [hdevid, hmk, hsalt, hhkdf, hiv, hgcm]
  dsimp only
  rcases hcase : calls.write with _ | written | _ | _ | _
  · exact absurd hcase hwrite
  · rfl
  · rfl
  · rfl
  · rfl

/-! ### The round trip -/

/-- A cipher that hides nothing, for samples. -/
def plainCrypto : Crypto where
  sha256 _ := Bytes.zero 32
  hkdf _ key _ := key
  gcmEncrypt _ _ pt := (pt, Bytes.zero 16)
  gcmDecrypt _ _ ct _ := some ct
  decrypt_encrypt _ _ _ := rfl

/-- The key of 32 equal bytes. -/
def sampleKey (byte : UInt8) : Bytes 32 := ⟨List.replicate 32 byte, List.length_replicate⟩

/-- Random bytes with this key, and nothing fails. -/
def sampleCalls (byte : UInt8) : WrapCalls where
  mkBuf := some (sampleKey byte)
  salt := some (Bytes.zero 16)
  iv := some (Bytes.zero 12)

/-- The wrap file with this key. -/
def sampleWrap (byte : UInt8) : List UInt8 :=
  (wrapBlob plainCrypto {} 0 0 (sampleKey byte) (Bytes.zero 16) (Bytes.zero 12)).bytes

/-- `write_wrap` returns true only with the whole blob in the file. -/
theorem file_of_writeWrap {write : WrapWrite} {file file' : Option (List UInt8)} {blob : WrapBlob}
    (h : writeWrap write file blob = (.returned true, file')) : file' = some blob.bytes := by
  unfold writeWrap at h
  rcases write with _ | written | _ | _ | _
  case done => exact (Prod.mk.inj h).2.symm
  all_goals
    have hexit := (Prod.mk.inj h).1
    contradiction

/-- `encrypt_mk` returns true only with the key that is in the new file. -/
theorem decryptMk_of_encryptMk {calls : WrapCalls} {file file' : Option (List UInt8)}
    {outMk mk : List UInt8} (h : encryptMk c device calls file outMk = (.returned true, mk, file'))
    (outMk' : List UInt8) : decryptMk c device file' outMk' = (true, mk) := by
  rcases hopens : calls.opensWrap with _ | _
  · rw [encryptMk_of_not_opensWrap c device hopens] at h
    have hexit := (Prod.mk.inj h).1
    contradiction
  obtain ⟨key, bytes, -, -, hkey, hencrypt⟩ := encryptMk_of_opensWrap c device hopens file outMk
  rw [hencrypt] at h
  rcases hwrite : calls.write with _ | written | _ | _ | _
  all_goals
    rw [hwrite] at h
    dsimp only at h
  case done =>
    -- the only exit that returns true
    obtain ⟨rfl, rfl⟩ := Prod.mk.inj (Prod.mk.inj h).2
    exact hkey outMk'
  all_goals
    have hexit := (Prod.mk.inj h).1
    contradiction

/-- **The wrapped master key makes the round trip, and nothing else is accepted**: the key that
`encrypt_mk` returns is the one that `decrypt_mk` reads back on the same device, every valid blob is
read back as it was written, and neither reads anything from a file that is too short or does not
start with the magic. -/
theorem wrappedKey_roundTrip (c : Crypto) (device : Device) :
    (∀ (calls : WrapCalls) (file file' : Option (List UInt8)) (outMk mk : List UInt8),
      encryptMk c device calls file outMk = (.returned true, mk, file') →
        ∀ outMk', decryptMk c device file' outMk' = (true, mk)) ∧
    (∀ (write : WrapWrite) (file file' : Option (List UInt8)) (blob : WrapBlob), blob.isValid →
      writeWrap write file blob = (.returned true, file') → readWrap file' = some blob) ∧
    ∀ bytes : List UInt8, bytes.length < 100 ∨ bytes.take 8 ≠ magic.val →
      readWrap (some bytes) = none ∧
        ∀ outMk, decryptMk c device (some bytes) outMk = (false, outMk) := by
  refine ⟨fun calls file file' outMk mk h => decryptMk_of_encryptMk h,
    fun write file file' blob hvalid h => ?_, fun bytes h => ?_⟩
  · rw [file_of_writeWrap h]
    exact readWrap_bytes hvalid
  · have hread : readWrap (some bytes) = none := by
      rcases h with hshort | hmagic
      · exact readWrap_of_short hshort
      · exact readWrap_of_not_magic hmagic
    exact ⟨hread, decryptMk_of_readWrap_eq_none hread⟩

/-- A key and its wrap file, a blob, and an empty file. -/
theorem wrappedKey_roundTrip_sample :
    encryptMk plainCrypto {} (sampleCalls 7) none [] =
        (.returned true, (sampleKey 7).val, some (sampleWrap 7)) ∧
      decryptMk plainCrypto {} (some (sampleWrap 7)) [] = (true, (sampleKey 7).val) ∧
      (let blob := wrapBlob plainCrypto {} 0 0 (sampleKey 7) (Bytes.zero 16) (Bytes.zero 12)
      readWrap (some (sampleWrap 7)) = some blob) ∧
      readWrap (some []) = none :=
  ⟨rfl, (wrappedKey_roundTrip plainCrypto {}).1 (sampleCalls 7) none _ [] _ rfl [],
    (wrappedKey_roundTrip plainCrypto {}).2.1 .done none _ _
      (isValid_wrapBlob 0 0 (sampleKey 7) (Bytes.zero 16) (Bytes.zero 12)) rfl,
    ((wrappedKey_roundTrip plainCrypto {}).2.2 [] (Or.inl (by decide))).1⟩

end AimrtComm.Database
