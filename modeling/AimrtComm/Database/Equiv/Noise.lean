import AimrtComm.Database.Equiv.Wrap

/-!
## The noise of the key derivation

The noise in a wrap file is to hold the time and the pid of the run of `encrypt_mk` that made it, so
that the key derivation is disturbed in another way each time.  But `make_shift_salt` tells the two
directions apart by `noise.empty()`, which is false for a `std::array` of 16 bytes, so that
`encrypt_mk` stores the zero bytes it started from, and derives its key from the time 0 and the
pid 0 (`never_fresh`).
-/

namespace AimrtComm.Database

/-! ### What a run stores and uses -/

/-- A run of `encrypt_mk` with these library calls leaves a wrap file of its own that is read as
this blob. -/
def Stores (c : Crypto) (device : Device) (calls : WrapCalls) (blob : WrapBlob) : Prop :=
  calls.opensWrap = true ∧ ∃ file outMk,
    readWrap (encryptMk c device calls file outMk).2.2 = some blob

/-- The disturbance that `encrypt_mk` derives its key with. -/
def encryptDisturbance (c : Crypto) (device : Device) (calls : WrapCalls) : Bytes 32 :=
  (makeShiftSalt c device calls.time calls.pid (Bytes.zero 16)).1

/-- The disturbance that `decrypt_mk` derives its key with. -/
def decryptDisturbance (c : Crypto) (device : Device) (blob : WrapBlob) : Bytes 32 :=
  (makeShiftSalt c device 0 0 blob.noise).1

/-- The hash of the text of a time, the serial number, the text of a pid and the mac. -/
def disturbanceOf (c : Crypto) (device : Device) (time pid : UInt64) : Bytes 32 :=
  c.sha256 (asciiBytes (toString time) ++ (readTextTrim device.sn).getD [] ++
    asciiBytes (toString pid) ++ (getMacForIface device).getD [])

/-- What one run stores and uses is what its time and its pid say. -/
structure OwnNoise (c : Crypto) (device : Device) (calls : WrapCalls) (blob : WrapBlob) : Prop where
  encodes : blob.noise.val = le64 calls.time ++ le64 calls.pid
  used : encryptDisturbance c device calls = disturbanceOf c device calls.time calls.pid
  recomputed : decryptDisturbance c device blob = encryptDisturbance c device calls

/-- Two runs each have noise of their own, and not the same. -/
structure Fresh (c : Crypto) (device : Device) (calls calls' : WrapCalls) (blob blob' : WrapBlob) :
    Prop where
  differs : blob.noise ≠ blob'.noise
  own : OwnNoise c device calls blob
  own' : OwnNoise c device calls' blob'

variable {c : Crypto} {device : Device} {calls calls' : WrapCalls} {blob blob' : WrapBlob}

/-! ### The noise is always the same -/

/-- The blob that is read back is the one that was made. -/
theorem Stores.exists_eq (h : Stores c device calls blob) : ∃ mk salt iv,
    blob = wrapBlob c device calls.time calls.pid mk salt iv := by
  obtain ⟨hopens, file, outMk, hread⟩ := h
  simp only [WrapCalls.opensWrap, Bool.and_eq_true, Option.isSome_iff_exists, bne_iff_ne] at hopens
  obtain ⟨⟨⟨⟨⟨⟨hdevid, mk, hmk⟩, salt, hsalt⟩, hhkdf⟩, iv, hiv⟩, hgcm⟩, hwrite⟩ := hopens
  refine ⟨mk, salt, iv, ?_⟩
  have hwhole : readWrap (some (wrapBlob c device calls.time calls.pid mk salt iv).bytes) =
      some (wrapBlob c device calls.time calls.pid mk salt iv) :=
    readWrap_bytes (isValid_wrapBlob calls.time calls.pid mk salt iv)
  unfold encryptMk at hread
  rw [hdevid, hmk, hsalt, hhkdf, hiv, hgcm] at hread
  rcases hcase : calls.write with _ | written | _ | _ | _
  · exact absurd hcase hwrite
  · -- a part of the file is not read
    have hshort : ((wrapBlob c device calls.time calls.pid mk salt iv).bytes.take written).length <
        100 := by
      rw [List.length_take, WrapBlob.length_bytes]
      omega
    rw [hcase] at hread
    have hnone := (readWrap_of_short hshort).symm.trans hread
    cases hnone
  all_goals
    rw [hcase] at hread
    exact Option.some.inj (hread.symm.trans hwhole)

/-- **The stored noise is the zero bytes that `encrypt_mk` starts from.** -/
theorem Stores.noise_eq (h : Stores c device calls blob) : blob.noise = Bytes.zero 16 := by
  obtain ⟨mk, salt, iv, rfl⟩ := h.exists_eq
  have hsalt := @makeShiftSalt_eq c device calls.time calls.pid 0 0 (Bytes.zero 16)
  exact congrArg Prod.snd hsalt

/-- The two directions agree on it all the same. -/
theorem Stores.recomputed (h : Stores c device calls blob) :
    decryptDisturbance c device blob = encryptDisturbance c device calls := by
  rw [decryptDisturbance, h.noise_eq, encryptDisturbance, makeShiftSalt_eq 0 0 calls.time calls.pid]

/-- **No two runs store noise of their own**, whatever their times and pids are. -/
theorem never_fresh (h : Stores c device calls blob) (h' : Stores c device calls' blob') :
    ¬ Fresh c device calls calls' blob blob' :=
  fun hfresh => hfresh.differs (h.noise_eq.trans h'.noise_eq.symm)

/-- A run at this time. -/
def callsAt (time : UInt64) : WrapCalls := { sampleCalls 7 with time }

theorem stores_callsAt (time : UInt64) : Stores plainCrypto {} (callsAt time)
    (wrapBlob plainCrypto {} time 0 (sampleKey 7) (Bytes.zero 16) (Bytes.zero 12)) :=
  ⟨rfl, none, [], readWrap_bytes (isValid_wrapBlob time 0 _ _ _)⟩

theorem never_fresh_sample :
    ¬ Fresh plainCrypto {} (callsAt 1700000000) (callsAt 1700000001)
      (wrapBlob plainCrypto {} 1700000000 0 (sampleKey 7) (Bytes.zero 16) (Bytes.zero 12))
      (wrapBlob plainCrypto {} 1700000001 0 (sampleKey 7) (Bytes.zero 16) (Bytes.zero 12)) :=
  never_fresh (stores_callsAt 1700000000) (stores_callsAt 1700000001)

/-- Two runs at different times store the same noise. -/
theorem runs_share_noise :
    ¬ ∀ (c : Crypto) (device : Device) (calls calls' : WrapCalls) (blob blob' : WrapBlob),
      (calls.time, calls.pid) ≠ (calls'.time, calls'.pid) → Stores c device calls blob →
        Stores c device calls' blob' → Fresh c device calls calls' blob blob' := by
  intro h
  have hstores := stores_callsAt 1700000000
  have hstores' := stores_callsAt 1700000001
  have hfresh := h _ _ _ _ _ _ (by decide) hstores hstores'
  exact hfresh.differs (hstores.noise_eq.trans hstores'.noise_eq.symm)

end AimrtComm.Database
