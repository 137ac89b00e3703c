import AimrtComm.Lib.Bytes
import Mathlib.Data.List.Infix

/-!
# The wrap file

The master key of a database is kept in a wrap file, encrypted under a key derived from the device:
`encrypt_mk` makes a new master key and writes the file, `decrypt_mk` reads it back.  The file is
the magic, the salt, the iv, the tag, the encrypted key and the noise, one after the other.

The hash, the key derivation and the cipher are a `Crypto`; the files that name the device are a
`Device`.  What the library calls of `encrypt_mk` come back with is given by `WrapCalls`: the random
bytes they produce, and which of them fail.  Opening the file truncates it, so a write that fails
leaves a part of the new file (`WrapWrite`).
-/

namespace AimrtComm.Database

/-! ### What the code is built on -/

/-- SHA-256, HKDF over it, and AES-256-GCM: decryption inverts encryption under the same key and
iv. -/
structure Crypto where
  sha256 : List UInt8 → Bytes 32
  hkdf : (salt : Bytes 16) → (key : Bytes 32) → (info : List UInt8) → Bytes 32
  gcmEncrypt : (key : Bytes 32) → (iv : Bytes 12) → Bytes 32 → Bytes 32 × Bytes 16
  gcmDecrypt : (key : Bytes 32) → (iv : Bytes 12) → (ct : Bytes 32) → (tag : Bytes 16) →
    Option (Bytes 32)
  decrypt_encrypt : ∀ key iv pt,
    gcmDecrypt key iv (gcmEncrypt key iv pt).1 (gcmEncrypt key iv pt).2 = some pt

/-- The contents of the files that name the device, none where there is no such file. -/
structure Device where
  model : Option (List UInt8) := none
  sn : Option (List UInt8) := none
  ethClient : Option (List UInt8) := none
  eth0 : Option (List UInt8) := none

/-- The bytes of a text of ASCII characters. -/
def asciiBytes (s : String) : List UInt8 := s.toList.map fun c => UInt8.ofNat c.toNat

/-! ### The device -/

/-- `std::tolower`. -/
def tolower (c : UInt8) : UInt8 := if 65 ≤ c ∧ c ≤ 90 then c + 32 else c

/-- `std::isxdigit`. -/
def isxdigit (c : UInt8) : Bool :=
  (48 ≤ c && c ≤ 57) || (65 ≤ c && c ≤ 70) || (97 ≤ c && c ≤ 102)

/-- `normalize_mac_address`. -/
def normalizeMacAddress (s : List UInt8) : Option (List UInt8) :=
  let s := (s.filter fun c => !(c == 58 || c == 45)).map tolower
  if s.length ≠ 12 then none else if s.all isxdigit then some s else none

/-- `read_text_trim` of a file with this content. -/
def readTextTrim (file : Option (List UInt8)) : Option (List UInt8) :=
  file.map fun s => (s.reverse.dropWhile fun c => c == 10 || c == 13).reverse

/-- `get_mac_for_iface`. -/
def getMacForIface (device : Device) : Option (List UInt8) := do
  let model ← readTextTrim device.model
  let mac ←
    if asciiBytes "_LITE" <:+: model then readTextTrim device.ethClient
    else if asciiBytes "_FLAGSHIP" <:+: model then readTextTrim device.eth0
    else none
  normalizeMacAddress mac

/-- `make_devid`, when its library calls succeed: the hash of the serial number and the mac. -/
def makeDevid (c : Crypto) (device : Device) : Bytes 32 :=
  c.sha256 ((readTextTrim device.sn).getD [] ++ (getMacForIface device).getD [])

/-- `make_shift_salt`: the disturbance and the noise.  `noise.empty()` asks a `std::array` of 16
bytes, so the time and the pid are taken from the noise. -/
def makeShiftSalt (c : Crypto) (device : Device) (time pid : UInt64) (noise : Bytes 16) :
    Bytes 32 × Bytes 16 :=
  let (time, pid, noise) :=
    if noise.val.isEmpty then (time, pid, ⟨le64 time ++ le64 pid, by simp [le64]⟩)
    else (ofLe64 (noise.val.take 8), ofLe64 (noise.val.drop 8), noise)
  let raw := asciiBytes (toString time) ++ (readTextTrim device.sn).getD [] ++
    asciiBytes (toString pid) ++ (getMacForIface device).getD []
  (c.sha256 raw, noise)

/-- `PEPPER`. -/
def pepper : List UInt8 := asciiBytes "agibot-pepper-v1-sqlcipher"

/-- `hkdf_devk`, when its library calls succeed. -/
def hkdfDevk (c : Crypto) (devid : Bytes 32) (salt : Bytes 16) (disturbance : Bytes 32) :
    Bytes 32 :=
  c.hkdf salt devid (pepper ++ disturbance.val)

/-! ### The file -/

/-- `MAGIC`. -/
def magic : Bytes 8 := ⟨asciiBytes "AGI-WRAP", by decide⟩

/-- `WrapBlob`. -/
structure WrapBlob where
  magic : Bytes 8 := Database.magic
  salt : Bytes 16
  iv : Bytes 12
  tag : Bytes 16
  ct : Bytes 32
  noise : Bytes 16
deriving DecidableEq

/-- `is_valid()`. -/
def WrapBlob.isValid (blob : WrapBlob) : Bool := blob.magic == Database.magic

/-- The bytes that `write_wrap` writes. -/
def WrapBlob.bytes (blob : WrapBlob) : List UInt8 :=
  blob.magic.val ++ (blob.salt.val ++ (blob.iv.val ++ (blob.tag.val ++ (blob.ct.val ++
    blob.noise.val))))

/-- `read_wrap` of a file with this content. -/
def readWrap (file : Option (List UInt8)) : Option WrapBlob := do
  let bytes ← file
  let (magic, bytes) ← Bytes.take? 8 bytes
  if magic ≠ Database.magic then none
  else
    let (salt, bytes) ← Bytes.take? 16 bytes
    let (iv, bytes) ← Bytes.take? 12 bytes
    let (tag, bytes) ← Bytes.take? 16 bytes
    let (ct, bytes) ← Bytes.take? 32 bytes
    let (noise, _) ← Bytes.take? 16 bytes
    return { magic, salt, iv, tag, ct, noise }

/-- How the writing of the wrap file goes: it is not opened; a `write` fails after some of the 100
bytes; `fsync` fails; `fs::permissions` throws; or all is done. -/
inductive WrapWrite where
  | notOpened
  | failed (written : Fin 100)
  | notSynced
  | notPermitted
  | done
deriving DecidableEq, Repr

/-- How a function is left. -/
inductive Exit (α : Type*) where
  | returned (value : α)
  | thrown
deriving DecidableEq, Repr

/-- `write_wrap`: how it is left, and the file after it. -/
def writeWrap (write : WrapWrite) (file : Option (List UInt8)) (blob : WrapBlob) :
    Exit Bool × Option (List UInt8) :=
  match write with
  | .notOpened => (.returned false, file)
  | .failed written => (.returned false, some (blob.bytes.take written))
  | .notSynced => (.returned false, some blob.bytes)
  | .notPermitted => (.thrown, some blob.bytes)
  | .done => (.returned true, some blob.bytes)

/-! ### The master key -/

/-- What the library calls of `encrypt_mk` come back with. -/
structure WrapCalls where
  devid : Bool := true
  mkBuf : Option (Bytes 32)
  salt : Option (Bytes 16)
  hkdf : Bool := true
  iv : Option (Bytes 12)
  gcm : Bool := true
  write : WrapWrite := .done
  time : UInt64 := 0
  pid : UInt64 := 0

/-- The blob that `encrypt_mk` makes of its random bytes. -/
def wrapBlob (c : Crypto) (device : Device) (time pid : UInt64) (mk : Bytes 32) (salt : Bytes 16)
    (iv : Bytes 12) : WrapBlob :=
  let (disturbance, noise) := makeShiftSalt c device time pid (Bytes.zero 16)
  let devk := hkdfDevk c (makeDevid c device) salt disturbance
  let (ct, tag) := c.gcmEncrypt devk iv mk
  { salt, iv, tag, ct, noise }

/-- `encrypt_mk`: how it is left, `out_mk` and the wrap file. -/
def encryptMk (c : Crypto) (device : Device) (calls : WrapCalls) (file : Option (List UInt8))
    (outMk : List UInt8) : Exit Bool × List UInt8 × Option (List UInt8) :=
  match calls.devid, calls.mkBuf, calls.salt, calls.hkdf, calls.iv, calls.gcm with
  | true, some mk, some salt, true, some iv, true =>
    match writeWrap calls.write file (wrapBlob c device calls.time calls.pid mk salt iv) with
    | (.returned true, file) => (.returned true, mk.val, file)
    | (exit, file) => (exit, outMk, file)
  | _, _, _, _, _, _ => (.returned false, outMk, file)

/-- `decrypt_mk`, when its library calls succeed: what it returns, and `out_mk`. -/
def decryptMk (c : Crypto) (device : Device) (file : Option (List UInt8)) (outMk : List UInt8) :
    Bool × List UInt8 :=
  match readWrap file with
  | none => (false, outMk)
  | some blob =>
    -- the noise is never empty, so no time and pid are read
    let disturbance := (makeShiftSalt c device 0 0 blob.noise).1
    let devk := hkdfDevk c (makeDevid c device) blob.salt disturbance
    match c.gcmDecrypt devk blob.iv blob.ct blob.tag with
    | some mk => (true, mk.val)
    | none => (false, [])

end AimrtComm.Database
