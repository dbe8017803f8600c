import OpenMigrate.Secrets.Base64
import OpenMigrate.Url.Lossy
import Mathlib.Data.List.Infix

namespace OpenMigrate.Secrets

open Url

section Source

def KEY_LENGTH : ℕ := 32

def NONCE_LENGTH : ℕ := 12

def AUTH_TAG_LENGTH : ℕ := 16

def VERSION : ℤ := 1

/-- The cipher of the platform: a plaintext under a key and a nonce gives a ciphertext and a tag, and these give it
back or an error. -/
structure Aes256Gcm where
  cipher : Bytes → Bytes → Bytes → Bytes × Bytes
  decipher : Bytes → Bytes → Bytes → Bytes → Except String Bytes

/-- Where a field is missing its text is empty, and the version is none. -/
structure EncryptedSecret where
  v : Option ℤ
  n : List Char
  t : List Char
  c : List Char

/-- `Buffer.from(text, 'hex')`: it ends at the first pair that is no byte. -/
def fromHex : List Char → Bytes
  | h :: l :: rest => (escapeTail [h, l]).elim [] (· :: fromHex rest)
  | _ => []

/-- `length` of a string, in UTF-16 code units. -/
def jsLength (s : List Char) : ℕ := (s.map fun c => if c.toNat < 0x10000 then 1 else 2).sum

def getEncryptionKey (keyEnv : List Char) : Except String Bytes :=
  if keyEnv = [] then
    .error ("SECRET_ENCRYPTION_KEY environment variable is required. " ++
      "Generate a 32-byte (256-bit) key using: crypto.randomBytes(32).toString(\"hex\")")
  else if jsLength keyEnv = 64 ∨ jsLength keyEnv = 44 then
    let keyBuffer := if jsLength keyEnv = 64 then fromHex keyEnv else Base64.decode keyEnv
    if keyBuffer.length ≠ KEY_LENGTH then
      .error (s!"SECRET_ENCRYPTION_KEY must be exactly 32 bytes (256 bits). Got {keyBuffer.length} bytes. " ++
        "Generate a key using: node -e \"console.log(require('crypto').randomBytes(32).toString('hex'))\"")
    else .ok keyBuffer
  else
    .error ("SECRET_ENCRYPTION_KEY must be 32 bytes (64 hex chars or 44 base64 chars). " ++
      s!"Got {jsLength keyEnv} characters. " ++
      "Generate a key using: node -e \"console.log(require('crypto').randomBytes(32).toString('hex'))\"")

/-- `nonce` is what `randomBytes` gave. -/
def encryptSecret (aes : Aes256Gcm) (keyEnv : List Char) (nonce : Bytes) (plaintext : List Char) :
    Except String EncryptedSecret := do
  let key ← getEncryptionKey keyEnv
  let sealed := aes.cipher key nonce (utf8 plaintext)
  return ⟨some VERSION, Base64.encode nonce, Base64.encode sealed.2, Base64.encode sealed.1⟩

/-- The `try` of `decryptSecret`. -/
def openSealed (aes : Aes256Gcm) (key : Bytes) (encrypted : EncryptedSecret) : Except String (List Char) := do
  let nonce := Base64.decode encrypted.n
  let authTag := Base64.decode encrypted.t
  let ciphertext := Base64.decode encrypted.c
  if nonce.length ≠ NONCE_LENGTH then
    throw s!"Invalid nonce length: {nonce.length} (expected {NONCE_LENGTH})"
  if authTag.length ≠ AUTH_TAG_LENGTH then
    throw s!"Invalid auth tag length: {authTag.length} (expected {AUTH_TAG_LENGTH})"
  let plaintext ← aes.decipher key nonce authTag ciphertext
  return lossyDecode none plaintext

/-- The `catch` of `decryptSecret`. -/
def failure (message : String) : String :=
  if "Unsupported state".toList <:+: message.toList then
    "Authentication failed: encrypted secret may be tampered or encrypted with different key"
  else s!"Decryption failed: {message}"

def decryptSecret (aes : Aes256Gcm) (keyEnv : List Char) (encrypted : Option EncryptedSecret) : Except String (List Char) :=
  match encrypted with
  | none => .error "Invalid encrypted secret: missing version"
  | some encrypted =>
    match encrypted.v with
    | none => .error "Invalid encrypted secret: missing version"
    | some v =>
      if v ≠ VERSION then
        .error (s!"Unsupported encryption version: {v}. " ++ s!"Current supported version: {VERSION}. " ++
          "Key rotation may be required.")
      else if encrypted.n = [] ∨ encrypted.t = [] ∨ encrypted.c = [] then
        .error "Invalid encrypted secret: missing nonce, tag, or ciphertext"
      else (getEncryptionKey keyEnv).bind fun key => (openSealed aes key encrypted).mapError failure

end Source

section Exact

variable {aes : Aes256Gcm} {keyEnv : List Char} {key nonce : Bytes} {s : List Char} {encrypted : EncryptedSecret}

/-- What is taken of AES-GCM about one encryption: its sizes, that it is undone, and that nothing else is opened. -/
structure Authentic (aes : Aes256Gcm) (key nonce plaintext : Bytes) : Prop where
  ciphertext : (aes.cipher key nonce plaintext).1.length = plaintext.length
  tag : (aes.cipher key nonce plaintext).2.length = AUTH_TAG_LENGTH
  decrypts : aes.decipher key nonce (aes.cipher key nonce plaintext).2 (aes.cipher key nonce plaintext).1 = .ok plaintext
  rejects : ∀ nonce' tag ciphertext,
    (nonce', tag, ciphertext) ≠ (nonce, (aes.cipher key nonce plaintext).2, (aes.cipher key nonce plaintext).1) →
      ∃ error, aes.decipher key nonce' tag ciphertext = .error error

def EncryptedSecret.decoded (encrypted : EncryptedSecret) : Bytes × Bytes × Bytes :=
  (Base64.decode encrypted.n, Base64.decode encrypted.t, Base64.decode encrypted.c)

theorem decoded_encode (v : Option ℤ) (nonce tag ciphertext : Bytes) :
    EncryptedSecret.decoded ⟨v, Base64.encode nonce, Base64.encode tag, Base64.encode ciphertext⟩ =
      (nonce, tag, ciphertext) := by
  rw [EncryptedSecret.decoded, Base64.decode_encode, Base64.decode_encode, Base64.decode_encode]

/-- The stored form of a secret gives the secret back, and any other nonce, tag or ciphertext an error. -/
structure ComesBack (aes : Aes256Gcm) (keyEnv : List Char) (nonce : Bytes) (s : List Char) : Prop where
  same : ∃ envelope, encryptSecret aes keyEnv nonce s = .ok envelope ∧ decryptSecret aes keyEnv (some envelope) = .ok s
  changed : ∀ envelope changed, encryptSecret aes keyEnv nonce s = .ok envelope → changed.decoded ≠ envelope.decoded →
    ∃ error, decryptSecret aes keyEnv (some changed) = .error error

theorem encryptSecret_eq (hkey : getEncryptionKey keyEnv = .ok key) :
    encryptSecret aes keyEnv nonce s = .ok ⟨some VERSION, Base64.encode nonce,
      Base64.encode (aes.cipher key nonce (utf8 s)).2, Base64.encode (aes.cipher key nonce (utf8 s)).1⟩ := by
  rw [encryptSecret, hkey]
  rfl

theorem openSealed_error {error : String} (h : aes.decipher key encrypted.decoded.1 encrypted.decoded.2.1
    encrypted.decoded.2.2 = .error error) : ∃ error, openSealed aes key encrypted = .error error := by
  rw [openSealed]
  dsimp only
  split
  · exact ⟨_, rfl⟩
  · split
    · exact ⟨_, rfl⟩
    · rw [EncryptedSecret.decoded] at h
      rw [h]
      exact ⟨_, rfl⟩

theorem openSealed_ok {plaintext : Bytes} (hnonce : encrypted.decoded.1.length = NONCE_LENGTH)
    (htag : encrypted.decoded.2.1.length = AUTH_TAG_LENGTH)
    (h : aes.decipher key encrypted.decoded.1 encrypted.decoded.2.1 encrypted.decoded.2.2 = .ok plaintext) :
    openSealed aes key encrypted = .ok (lossyDecode none plaintext) := by
  rw [EncryptedSecret.decoded] at hnonce htag h
  rw [openSealed]
  dsimp only
  rw [if_neg (fun hne => hne hnonce), if_neg (fun hne => hne htag), h]
  rfl

theorem decryptSecret_some (hversion : encrypted.v = some VERSION) (hkey : getEncryptionKey keyEnv = .ok key) :
    decryptSecret aes keyEnv (some encrypted) =
      if encrypted.n = [] ∨ encrypted.t = [] ∨ encrypted.c = [] then
        .error "Invalid encrypted secret: missing nonce, tag, or ciphertext"
      else (openSealed aes key encrypted).mapError failure := by
  rw [decryptSecret, hversion]
  dsimp only
  rw [if_neg (fun hne => hne rfl), hkey]
  rfl

theorem decryptSecret_error (hkey : getEncryptionKey keyEnv = .ok key)
    (h : ∃ error, openSealed aes key encrypted = .error error) :
    ∃ error, decryptSecret aes keyEnv (some encrypted) = .error error := by
  cases hversion : encrypted.v with
  | none =>
    rw [decryptSecret, hversion]
    exact ⟨_, rfl⟩
  | some v =>
    by_cases hv : v = VERSION
    · rw [decryptSecret_some (hv ▸ hversion) hkey]
      obtain ⟨error, herror⟩ := h
      rw [herror]
      split <;> exact ⟨_, rfl⟩
    · rw [decryptSecret, hversion]
      dsimp only
      rw [if_pos hv]
      exact ⟨_, rfl⟩

theorem decryptSecret_changed (hkey : getEncryptionKey keyEnv = .ok key) (haes : Authentic aes key nonce (utf8 s))
    {envelope changed : EncryptedSecret} (henvelope : encryptSecret aes keyEnv nonce s = .ok envelope)
    (hne : changed.decoded ≠ envelope.decoded) : ∃ error, decryptSecret aes keyEnv (some changed) = .error error := by
  rw [encryptSecret_eq hkey] at henvelope
  cases henvelope
  apply decryptSecret_error hkey
  rw [decoded_encode] at hne
  obtain ⟨error, herror⟩ := haes.rejects changed.decoded.1 changed.decoded.2.1 changed.decoded.2.2 hne
  exact openSealed_error herror

theorem utf8_eq_nil : utf8 s = [] ↔ s = [] := by
  constructor
  · intro h
    rw [← lossy_utf8 s, h]
    rfl
  · rintro rfl
    rfl

/-- A secret comes back exactly if it is not empty: the envelope of the empty one has no ciphertext. -/
theorem comesBack_iff (hkey : getEncryptionKey keyEnv = .ok key) (hnonce : nonce.length = NONCE_LENGTH)
    (haes : Authentic aes key nonce (utf8 s)) : ComesBack aes keyEnv nonce s ↔ s ≠ [] := by
  have hciphertext : Base64.encode (aes.cipher key nonce (utf8 s)).1 = [] ↔ s = [] := by
    rw [Base64.encode_eq_nil, ← List.length_eq_zero_iff, haes.ciphertext, List.length_eq_zero_iff, utf8_eq_nil]
  constructor
  · rintro ⟨⟨envelope, henvelope, hback⟩, -⟩ hempty
    rw [encryptSecret_eq hkey] at henvelope
    cases henvelope
    rw [decryptSecret_some rfl hkey, if_pos (.inr (.inr (hciphertext.mpr hempty)))] at hback
    cases hback
  · intro hne
    refine ⟨⟨_, encryptSecret_eq hkey, ?_⟩, fun _ _ => decryptSecret_changed hkey haes⟩
    rw [decryptSecret_some rfl hkey, if_neg]
    · have hopen : openSealed aes key ⟨some VERSION, Base64.encode nonce,
          Base64.encode (aes.cipher key nonce (utf8 s)).2, Base64.encode (aes.cipher key nonce (utf8 s)).1⟩ =
            .ok (lossyDecode none (utf8 s)) := by
        apply openSealed_ok
        · rw [decoded_encode]
          exact hnonce
        · rw [decoded_encode]
          exact haes.tag
        · rw [decoded_encode]
          exact haes.decrypts
      rw [hopen, lossy_utf8]
      rfl
    · rintro (hn | ht | hc)
      · rw [Base64.encode_eq_nil] at hn
        rw [hn] at hnonce
        cases hnonce
      · have htag := haes.tag
        rw [Base64.encode_eq_nil.mp ht] at htag
        cases htag
      · exact hne (hciphertext.mp hc)

end Exact

namespace Sample

def keyEnv : List Char := List.replicate 43 'A' ++ ['=']

def key : Bytes := List.replicate 32 0

def nonce : Bytes := List.replicate 12 0

/-- AES-256-GCM as far as this plaintext under a key and a nonce of zeros goes. -/
def aes (plaintext ciphertext tag : Bytes) : Aes256Gcm where
  cipher _ _ other := if other = plaintext then (ciphertext, tag) else (other, tag)
  decipher _ nonce' tag' ciphertext' :=
    if (nonce', tag', ciphertext') = (nonce, tag, ciphertext) then .ok plaintext
    else .error "Unsupported state or unable to authenticate data"

theorem aes_authentic {plaintext ciphertext tag : Bytes} (hciphertext : ciphertext.length = plaintext.length)
    (htag : tag.length = AUTH_TAG_LENGTH) : Authentic (aes plaintext ciphertext tag) key nonce plaintext := by
  have hcipher : (aes plaintext ciphertext tag).cipher key nonce plaintext = (ciphertext, tag) := if_pos rfl
  constructor
  · rw [hcipher]
    exact hciphertext
  · rw [hcipher]
    exact htag
  · rw [hcipher]
    exact if_pos rfl
  · intro nonce' tag' ciphertext' hne
    rw [hcipher] at hne
    exact ⟨_, if_neg hne⟩

def letterAes : Aes256Gcm :=
  aes [107] [165] [141, 215, 65, 115, 236, 60, 175, 177, 46, 4, 111, 81, 234, 55, 55, 214]

def emptyAes : Aes256Gcm := aes [] [] [83, 15, 138, 251, 199, 69, 54, 185, 169, 99, 180, 241, 196, 203, 115, 139]

theorem getEncryptionKey_zeros : getEncryptionKey keyEnv = .ok key := by decide

theorem comesBack_letter : ComesBack letterAes keyEnv nonce ['k'] := by
  have haes : Authentic letterAes key nonce (utf8 ['k']) := aes_authentic rfl rfl
  exact (comesBack_iff getEncryptionKey_zeros rfl haes).mpr (List.cons_ne_nil _ _)

/-- The empty secret is encrypted, and its envelope refused. -/
theorem empty_refused : Authentic emptyAes key nonce (utf8 []) ∧
    encryptSecret emptyAes keyEnv nonce [] =
      .ok ⟨some 1, "AAAAAAAAAAAAAAAA".toList, "Uw+K+8dFNrmpY7TxxMtziw==".toList, []⟩ ∧
    ¬ ComesBack emptyAes keyEnv nonce [] := by
  refine ⟨aes_authentic rfl rfl, rfl, ?_⟩
  rintro ⟨⟨envelope, henvelope, hback⟩, -⟩
  rw [encryptSecret_eq getEncryptionKey_zeros] at henvelope
  cases henvelope
  cases hback

end Sample

end OpenMigrate.Secrets
