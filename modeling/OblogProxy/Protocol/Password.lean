import OblogProxy.Core.SecureHash

/-!
# The password check

A client answers the scramble of the server with
`SHA1(password) XOR SHA1(scramble + SHA1(SHA1(password)))`.  The client builds the
string that is hashed from vectors, the server from C strings, and the server takes
twenty bytes of the answer whatever its length is.  The hash is a parameter of the check;
`SHA1` collects the bytes of a message in a block, which is processed when it is full.
-/

namespace OblogProxy.Protocol

open Bytes List SecureHash

def scrambleLength : ℕ := 20

def sha1HashSize : ℕ := 20

/-- `generate_scramble`, with the numbers that `rand_r` gives. -/
def generateScramble (random : ℕ → ℕ) : Bytes :=
  (range scrambleLength).map fun index =>
    let byte := UInt8.ofNat (random index % 128)
    if byte = 0 ∨ byte = 36 then byte + 1 else byte

def xorBytes (left right : Bytes) : Bytes :=
  zipWith (· ^^^ ·) left right

/-- What `strcpy` and `strcat` copy of a string. -/
def cString (bytes : Bytes) : Bytes :=
  bytes.takeWhile (· ≠ 0)

section Check

variable (sha1 : Bytes → Bytes)

def computeSha1HashMulti (buf1 buf2 : Bytes) : Bytes :=
  sha1 (cString buf1 ++ cString buf2)

/-- `none` is a read beyond the token. -/
def checkScrambleSha1 (token scramble hashStage2 : Bytes) : Option Bool :=
  let sha1Combined := computeSha1HashMulti sha1 scramble hashStage2
  (readAt token 0 sha1HashSize).map fun token =>
    decide (hashStage2.take sha1HashSize = sha1 (xorBytes sha1Combined token))

/-- How `auth` decides on the password, given the stored hash. -/
def checkPassword (password scramble passwordSha2 : Bytes) : Option Bool :=
  if password = [] ∧ passwordSha2 = [] then some true
  else if password = [] ∨ passwordSha2 = [] then some false
  else checkScrambleSha1 sha1 password scramble passwordSha2

def calcMysqlAuthInfo (passwdSha1 scramble : Bytes) : Option Bytes :=
  let passwdStage2 := sha1 passwdSha1
  let shaCombined := sha1 (scramble ++ passwdStage2)
  if passwdSha1.length = shaCombined.length then some (xorBytes passwdSha1 shaCombined) else none

def IsAnswer (scramble hashStage2 response : Bytes) : Prop :=
  response.length = sha1HashSize ∧
    sha1 (xorBytes response (sha1 (scramble ++ hashStage2))) = hashStage2

/-- The check reads nothing outside the response, and it accepts exactly the right
ones. -/
def ChecksExactly (scramble hashStage2 response : Bytes) : Prop :=
  ∃ accepted, checkPassword sha1 response scramble hashStage2 = some accepted ∧
    (accepted = true ↔ IsAnswer sha1 scramble hashStage2 response)

/-- The hash of the hash of the password is stored. -/
structure StoredHash (password hashStage2 : Bytes) : Prop where
  size : ∀ bytes, (sha1 bytes).length = sha1HashSize
  password_ne_nil : password ≠ []
  hash_eq : sha1 (sha1 password) = hashStage2

end Check

theorem cString_of_forall_ne {bytes : Bytes} (hbytes : ∀ byte ∈ bytes, byte ≠ 0) :
    cString bytes = bytes := by
  rw [cString, takeWhile_eq_self_iff]
  simpa using hbytes

theorem length_cString_lt {bytes : Bytes} (hzero : 0 ∈ bytes) :
    (cString bytes).length < bytes.length := by
  apply Nat.lt_of_le_of_ne (List.takeWhile_prefix _).length_le
  intro hlength
  have hwhole := (List.takeWhile_prefix _).eq_of_length hlength
  rw [takeWhile_eq_self_iff] at hwhole
  simpa using hwhole 0 hzero

theorem length_generateScramble (random : ℕ → ℕ) :
    (generateScramble random).length = scrambleLength := by
  simp [generateScramble]

theorem generateScramble_ne_zero (random : ℕ → ℕ) :
    ∀ byte ∈ generateScramble random, byte ≠ 0 := by
  intro byte hbyte
  simp only [generateScramble, mem_map] at hbyte
  obtain ⟨index, -, rfl⟩ := hbyte
  split_ifs with hspecial
  · rcases hspecial with hzero | hdollar
    · rw [hzero]
      decide
    · rw [hdollar]
      decide
  · exact fun hzero => hspecial (Or.inl hzero)

theorem length_xorBytes {left right : Bytes} (hlength : left.length = right.length) :
    (xorBytes left right).length = left.length := by
  rw [xorBytes, length_zipWith, hlength, Nat.min_self]

theorem xorBytes_comm (left right : Bytes) : xorBytes left right = xorBytes right left := by
  rw [xorBytes, xorBytes, zipWith_comm]
  simp only [UInt8.xor_comm]

theorem xorBytes_cancel {left right : Bytes} (hlength : left.length = right.length) :
    xorBytes left (xorBytes left right) = right := by
  induction left generalizing right with
  | nil =>
    rw [eq_nil_of_length_eq_zero hlength.symm]
    rfl
  | cons byte left ih =>
    cases right with
    | nil => simp at hlength
    | cons other right =>
      have hbyte : byte ^^^ (byte ^^^ other) = other := by
        rw [← UInt8.xor_assoc, UInt8.xor_self, UInt8.zero_xor]
      have hrest := ih (Nat.succ.inj hlength)
      simp only [xorBytes, zipWith_cons_cons, hbyte] at hrest ⊢
      rw [hrest]

/-- There are more than a few byte strings of the size of a hash. -/
theorem exists_fresh_hash (avoid : List Bytes) (hlength : avoid.length < 256) :
    ∃ bytes : Bytes, bytes.length = sha1HashSize ∧ bytes ∉ avoid := by
  by_contra hnone
  push Not at hnone
  let constants : List Bytes :=
    (range 256).map fun value => replicate sha1HashSize (UInt8.ofNat value)
  have hdistinct : constants.Nodup := by
    refine List.Nodup.map_on ?_ nodup_range
    intro left hleft right hright heq
    have hbyte := (replicate_right_inj (by decide : sha1HashSize ≠ 0)).mp heq
    have hvalue := congrArg UInt8.toNat hbyte
    rw [mem_range] at hleft hright
    simpa [Nat.mod_eq_of_lt hleft, Nat.mod_eq_of_lt hright] using hvalue
  have hsubset : constants ⊆ avoid := by
    intro bytes hbytes
    obtain ⟨value, -, rfl⟩ := mem_map.mp hbytes
    exact hnone _ length_replicate
  have hcount := (hdistinct.subperm hsubset).length_le
  simp only [constants, length_map, length_range] at hcount
  omega

section Exact

variable {sha1 : Bytes → Bytes} {scramble hashStage2 response : Bytes}

theorem checkPassword_of_ne_nil (hresponse : response ≠ []) (hhash : hashStage2 ≠ []) :
    checkPassword sha1 response scramble hashStage2 =
      checkScrambleSha1 sha1 response scramble hashStage2 := by
  rw [checkPassword, if_neg (fun h => hresponse h.1), if_neg (by simp [hresponse, hhash])]

section Hashed

variable (hhash : hashStage2.length = sha1HashSize)

include hhash

theorem checkScrambleSha1_of_le (hscramble : ∀ byte ∈ scramble, byte ≠ 0)
    (hlength : sha1HashSize ≤ response.length) :
    checkScrambleSha1 sha1 response scramble hashStage2 =
      some (decide (hashStage2 = sha1 (xorBytes (sha1 (scramble ++ cString hashStage2))
        (response.take sha1HashSize)))) := by
  have hread : readAt response 0 sha1HashSize = some (response.take sha1HashSize) :=
    readAt_of_drop (take_append_drop sha1HashSize response).symm
      (length_take_of_le hlength)
  rw [checkScrambleSha1, hread, computeSha1HashMulti, cString_of_forall_ne hscramble,
    take_of_length_le hhash.le]
  rfl

theorem checkPassword_eq (hscramble : ∀ byte ∈ scramble, byte ≠ 0)
    (hlength : response.length = sha1HashSize) :
    checkPassword sha1 response scramble hashStage2 =
      some (decide (hashStage2 =
        sha1 (xorBytes (sha1 (scramble ++ cString hashStage2)) response))) := by
  rw [checkPassword_of_ne_nil (ne_nil_of_length_pos (hlength ▸ by decide))
    (ne_nil_of_length_pos (hhash ▸ by decide)), checkScrambleSha1_of_le hhash hscramble hlength.ge,
    take_of_length_le hlength.le]

/-- A response of twenty bytes is checked as it should if the hash has no zero
byte. -/
theorem checksExactly_of_length (hscramble : ∀ byte ∈ scramble, byte ≠ 0)
    (hlength : response.length = sha1HashSize) (hzero : 0 ∉ hashStage2) :
    ChecksExactly sha1 scramble hashStage2 response := by
  have hwhole : cString hashStage2 = hashStage2 :=
    cString_of_forall_ne fun byte hbyte heq => hzero (heq ▸ hbyte)
  refine ⟨_, checkPassword_eq hhash hscramble hlength, ?_⟩
  rw [hwhole, IsAnswer, decide_eq_true_iff, xorBytes_comm response, eq_comm]
  exact (and_iff_right hlength).symm

theorem checksExactly_nil : ChecksExactly sha1 scramble hashStage2 [] := by
  have hstored : hashStage2 ≠ [] := ne_nil_of_length_pos (hhash ▸ by decide)
  refine ⟨false, ?_, ?_⟩
  · rw [checkPassword, if_neg (fun h => hstored h.2), if_pos (Or.inl rfl)]
  · simp [IsAnswer, sha1HashSize]

end Hashed

end Exact

section Apart

variable {scramble hashStage2 response : Bytes}

/-- A function that takes a string of forty bytes to `key` and one other string to
`other`. -/
def twoPointHash (key special other default : Bytes) (bytes : Bytes) : Bytes :=
  if bytes.length = 40 then key else if bytes = special then other else default

section Hash

variable (hhash : hashStage2.length = sha1HashSize)

include hhash

theorem storedHash_twoPointHash {key special other : Bytes} (hkey : key.length = sha1HashSize)
    (hspecial : special.length = sha1HashSize) (hother : other.length = sha1HashSize)
    (hne : hashStage2 ≠ special) :
    StoredHash (twoPointHash key special other hashStage2) [1] hashStage2 := by
  have hsingle : twoPointHash key special other hashStage2 [1] = hashStage2 := by
    rw [twoPointHash, if_neg (by simp), if_neg]
    rintro rfl
    simp [sha1HashSize] at hspecial
  refine ⟨?_, by simp, ?_⟩
  · intro bytes
    rw [twoPointHash]
    split_ifs
    · exact hkey
    · exact hother
    · exact hhash
  · rw [hsingle, twoPointHash, if_neg (by rw [hhash]; decide), if_neg hne]

theorem twoPointHash_client (hscramble : scramble.length = scrambleLength)
    (key special other : Bytes) :
    twoPointHash key special other hashStage2 (scramble ++ hashStage2) = key := by
  rw [twoPointHash, if_pos]
  rw [length_append, hscramble, hhash]
  rfl

/-- The string that the server hashes is shorter if the hash has a zero byte. -/
theorem length_server_ne (hscramble : scramble.length = scrambleLength) (hzero : 0 ∈ hashStage2) :
    (scramble ++ cString hashStage2).length ≠ 40 := by
  have hlt := length_cString_lt hzero
  rw [length_append, hscramble, scrambleLength]
  rw [hhash, sha1HashSize] at hlt
  omega

/-- For some function the server accepts a wrong response, since it hashes the hash
up to its zero byte. -/
theorem exists_not_checksExactly (hscramble : ∀ byte ∈ scramble, byte ≠ 0)
    (hscrambleLength : scramble.length = scrambleLength)
    (hlength : response.length = sha1HashSize) (hzero : 0 ∈ hashStage2) :
    ∃ sha1 password, StoredHash sha1 password hashStage2 ∧
      ¬ChecksExactly sha1 scramble hashStage2 response := by
  obtain ⟨other, hother, hotherNe⟩ := exists_fresh_hash [hashStage2] (by simp)
  obtain ⟨key, hkey, hkeyNe⟩ := exists_fresh_hash
    [other, hashStage2, xorBytes response hashStage2] (by simp)
  simp only [mem_cons, not_mem_nil, or_false, not_or] at hotherNe hkeyNe
  obtain ⟨hkeyOther, hkeyHash, hkeyXor⟩ := hkeyNe
  have hspecial : (xorBytes response key).length = sha1HashSize :=
    (length_xorBytes (hlength.trans hkey.symm)).trans hlength
  have hne : hashStage2 ≠ xorBytes response key := by
    intro heq
    apply hkeyXor
    rw [heq, xorBytes_cancel (hlength.trans hkey.symm)]
  refine ⟨twoPointHash key (xorBytes response key) other hashStage2, [1],
    storedHash_twoPointHash hhash hkey hspecial hother hne, ?_⟩
  rintro ⟨accepted, hchecked, haccepted⟩
  rw [checkPassword_eq hhash hscramble hlength] at hchecked
  obtain rfl := Option.some.inj hchecked
  -- the string of the client has forty bytes, and the response does not fit it
  have hclient := twoPointHash_client hhash hscrambleLength key (xorBytes response key) other
  have hwrong : ¬IsAnswer (twoPointHash key (xorBytes response key) other hashStage2) scramble
      hashStage2 response := by
    rintro ⟨-, hanswer⟩
    rw [hclient, twoPointHash, if_neg (by rw [hspecial]; decide), if_pos rfl] at hanswer
    exact hotherNe hanswer
  -- the string of the server has fewer, and it does
  generalize hserver : twoPointHash key (xorBytes response key) other hashStage2
    (scramble ++ cString hashStage2) = server at haccepted
  have hserverCases : server = other ∨ server = hashStage2 := by
    rw [twoPointHash, if_neg (length_server_ne hhash hscrambleLength hzero)] at hserver
    split_ifs at hserver
    · exact Or.inl hserver.symm
    · exact Or.inr hserver.symm
  have hserverLength : server.length = sha1HashSize := by
    rcases hserverCases with rfl | rfl
    · exact hother
    · exact hhash
  have hserverKey : server ≠ key := by
    rcases hserverCases with rfl | rfl
    · exact fun heq => hkeyOther heq.symm
    · exact fun heq => hkeyHash heq.symm
  have hnotSpecial : xorBytes server response ≠ xorBytes response key := by
    intro heq
    apply hserverKey
    rw [xorBytes_comm] at heq
    have hcancel := congrArg (xorBytes response) heq
    rwa [xorBytes_cancel (hlength.trans hserverLength.symm),
      xorBytes_cancel (hlength.trans hkey.symm)] at hcancel
  apply hwrong
  apply haccepted.mp
  rw [decide_eq_true_iff, twoPointHash, if_neg, if_neg hnotSpecial]
  rw [length_xorBytes (hserverLength.trans hlength.symm), hserverLength]
  decide

end Hash

theorem calcMysqlAuthInfo_eq {sha1 : Bytes → Bytes} {password : Bytes}
    (hstored : StoredHash sha1 password hashStage2) :
    calcMysqlAuthInfo sha1 (sha1 password) scramble =
      some (xorBytes (sha1 password) (sha1 (scramble ++ hashStage2))) := by
  rw [calcMysqlAuthInfo, hstored.hash_eq, if_pos]
  rw [hstored.size, hstored.size]

theorem isAnswer_calcMysqlAuthInfo {sha1 : Bytes → Bytes} {password : Bytes}
    (hstored : StoredHash sha1 password hashStage2) :
    IsAnswer sha1 scramble hashStage2
      (xorBytes (sha1 password) (sha1 (scramble ++ hashStage2))) := by
  have hlength : (sha1 password).length = (sha1 (scramble ++ hashStage2)).length := by
    rw [hstored.size, hstored.size]
  refine ⟨(length_xorBytes hlength).trans (hstored.size _), ?_⟩
  rw [xorBytes_comm (sha1 password), xorBytes_comm, xorBytes_cancel hlength.symm]
  exact hstored.hash_eq

/-- For some function the server rejects the response of the client itself. -/
theorem exists_client_rejected (hscramble : ∀ byte ∈ scramble, byte ≠ 0)
    (hscrambleLength : scramble.length = scrambleLength)
    (hhash : hashStage2.length = sha1HashSize) (hzero : 0 ∈ hashStage2) :
    ∃ sha1 password, StoredHash sha1 password hashStage2 ∧
      ∀ answer, calcMysqlAuthInfo sha1 (sha1 password) scramble = some answer →
        checkPassword sha1 answer scramble hashStage2 ≠ some true := by
  obtain ⟨other, hother, hotherNe⟩ := exists_fresh_hash [hashStage2] (by simp)
  obtain ⟨key, hkey, hkeyNe⟩ := exists_fresh_hash [hashStage2, scramble] (by simp)
  simp only [mem_cons, not_mem_nil, or_false, not_or] at hotherNe hkeyNe
  obtain ⟨hkeyHash, hkeyScramble⟩ := hkeyNe
  have hstored := storedHash_twoPointHash hhash hkey hkey hother fun heq => hkeyHash heq.symm
  refine ⟨twoPointHash key key other hashStage2, [1], hstored, ?_⟩
  intro answer hanswer
  rw [calcMysqlAuthInfo_eq hstored] at hanswer
  obtain rfl := Option.some.inj hanswer
  have hpassword : twoPointHash key key other hashStage2 [1] = hashStage2 := by
    rw [twoPointHash, if_neg (by simp), if_neg]
    rintro rfl
    simp [sha1HashSize] at hkey
  have hclient := twoPointHash_client hhash hscrambleLength key key other
  have hserver : twoPointHash key key other hashStage2 (scramble ++ cString hashStage2) =
      hashStage2 := by
    rw [twoPointHash, if_neg (length_server_ne hhash hscrambleLength hzero), if_neg]
    intro heq
    -- it would be the scramble alone
    have hlength := congrArg length heq
    rw [length_append, hscrambleLength, hkey, scrambleLength, sha1HashSize] at hlength
    have hempty : cString hashStage2 = [] := eq_nil_of_length_eq_zero (by omega)
    rw [hempty, append_nil] at heq
    exact hkeyScramble heq.symm
  have hxor : (xorBytes hashStage2 key).length = sha1HashSize :=
    (length_xorBytes (hhash.trans hkey.symm)).trans hhash
  rw [hpassword, hclient, checkPassword_eq hhash hscramble hxor, hserver, xorBytes_cancel (hhash.trans hkey.symm), twoPointHash, if_neg (by rw [hkey]; decide),
    if_pos rfl]
  simpa using fun heq => hotherNe heq.symm

end Apart

/-- Whatever the hash function is, the response is checked exactly if and only if it
is empty, or has twenty bytes and the stored hash has no zero byte; and the response
that the client computes is accepted if and only if the stored hash has no zero
byte. -/
theorem checksExactly_iff (random : ℕ → ℕ) (hashStage2 response : Bytes)
    (hhash : hashStage2.length = sha1HashSize) :
    ((∀ sha1 password, StoredHash sha1 password hashStage2 →
        ChecksExactly sha1 (generateScramble random) hashStage2 response) ↔
      response = [] ∨ response.length = sha1HashSize ∧ 0 ∉ hashStage2) ∧
    ((∀ sha1 password, StoredHash sha1 password hashStage2 →
        ∃ answer, calcMysqlAuthInfo sha1 (sha1 password) (generateScramble random) =
            some answer ∧
          checkPassword sha1 answer (generateScramble random) hashStage2 = some true) ↔
      0 ∉ hashStage2) := by
  have hscramble := generateScramble_ne_zero random
  have hscrambleLength := length_generateScramble random
  generalize generateScramble random = scramble at hscramble hscrambleLength ⊢
  have hstored : hashStage2 ≠ [] := ne_nil_of_length_pos (hhash ▸ by decide)
  refine ⟨⟨?_, ?_⟩, ?_, ?_⟩
  · intro hexact
    by_cases hresponse : response = []
    · exact Or.inl hresponse
    refine Or.inr ?_
    obtain ⟨accepted, hchecked, haccepted⟩ := hexact (fun _ => hashStage2) [1]
      ⟨fun _ => hhash, by simp, rfl⟩
    rw [checkPassword_of_ne_nil hresponse hstored] at hchecked
    have hlong : sha1HashSize ≤ response.length := by
      by_contra hshort
      rw [checkScrambleSha1, readAt_eq_none (by simpa using hshort)] at hchecked
      cases hchecked
    have hlength : response.length = sha1HashSize := by
      rw [checkScrambleSha1_of_le hhash hscramble hlong] at hchecked
      obtain rfl := Option.some.inj hchecked
      exact (haccepted.mp (by simp)).1
    refine ⟨hlength, fun hzero => ?_⟩
    obtain ⟨sha1, password, hstoredHash, hwrong⟩ :=
      exists_not_checksExactly hhash hscramble hscrambleLength hlength hzero
    exact hwrong (hexact sha1 password hstoredHash)
  · rintro (rfl | ⟨hlength, hzero⟩) sha1 password hstoredHash
    · exact checksExactly_nil hhash
    · exact checksExactly_of_length hhash hscramble hlength hzero
  · intro haccepts hzero
    obtain ⟨sha1, password, hstoredHash, hrejected⟩ :=
      exists_client_rejected hscramble hscrambleLength hhash hzero
    obtain ⟨answer, hanswer, haccepted⟩ := haccepts sha1 password hstoredHash
    exact hrejected answer hanswer haccepted
  · intro hzero sha1 password hstoredHash
    have hanswer := @isAnswer_calcMysqlAuthInfo scramble _ _ _ hstoredHash
    obtain ⟨accepted, hchecked, haccepted⟩ :=
      checksExactly_of_length hhash hscramble hanswer.1 hzero
    exact ⟨_, calcMysqlAuthInfo_eq hstoredHash, (haccepted.mpr hanswer) ▸ hchecked⟩

/-- Responses of twenty bytes, and the one of the client, for a hash without zero
bytes. -/
theorem checksExactly_fives :
    (replicate 20 5 : Bytes).length = sha1HashSize ∧
      (∀ sha1 password, StoredHash sha1 password (replicate 20 5) →
        ChecksExactly sha1 (generateScramble fun _ => 1) (replicate 20 5)
          (replicate 20 7)) ∧
      ∀ sha1 password, StoredHash sha1 password (replicate 20 5) →
        ∃ answer, calcMysqlAuthInfo sha1 (sha1 password) (generateScramble fun _ => 1) =
            some answer ∧
          checkPassword sha1 answer (generateScramble fun _ => 1) (replicate 20 5) =
            some true := by
  have hexact := checksExactly_iff (fun _ => 1) (replicate 20 5) (replicate 20 7)
    (by decide)
  exact ⟨by decide, hexact.1.mpr (Or.inr ⟨by decide, by decide⟩), hexact.2.mpr (by decide)⟩

/-- A response of twenty-one bytes is accepted, one of a single byte is read beyond
its end, and for a hash of zeros the response of the client is rejected. -/
theorem checkPassword_wrong :
    (checkPassword (fun _ => replicate 20 5) (replicate 21 0)
        (generateScramble fun _ => 1) (replicate 20 5) = some true ∧
      checkPassword (fun _ => replicate 20 5) [0] (generateScramble fun _ => 1)
        (replicate 20 5) = none) ∧
    (twoPointHash (replicate 20 2) (replicate 20 2) (replicate 20 3)
        (replicate 20 0) (twoPointHash (replicate 20 2) (replicate 20 2)
          (replicate 20 3) (replicate 20 0) [1]) = replicate 20 0 ∧
      (calcMysqlAuthInfo (twoPointHash (replicate 20 2) (replicate 20 2)
          (replicate 20 3) (replicate 20 0)) (replicate 20 0)
          (generateScramble fun _ => 1)).bind (fun answer =>
        checkPassword (twoPointHash (replicate 20 2) (replicate 20 2)
          (replicate 20 3) (replicate 20 0)) answer (generateScramble fun _ => 1)
          (replicate 20 0)) = some false) := by
  decide +kernel

inductive ShaResult
  | success : ShaResult
  | inputTooLong : ShaResult
  | stateError : ShaResult
deriving DecidableEq

/-- `SHA1`; `messageBlock` has 64 bytes. -/
structure Sha1 where
  length : ℕ
  intermediateHash : Words
  computed : Bool
  corrupted : ShaResult
  messageBlockIndex : ℕ
  messageBlock : Bytes

namespace Sha1

/-- The array `W`; what its loop does not fill is not read. -/
def wordSequence (block : Bytes) : ℕ → UInt32 :=
  (range' 16 64).foldl (fun w t => Function.update w t
    (circularShift 1 (w (t - 3) ^^^ w (t - 8) ^^^ w (t - 14) ^^^ w (t - 16)))) (wordAt block)

/-- One of the four loops over the rounds. -/
def rounds (mix : UInt32 → UInt32 → UInt32 → UInt32) (key : UInt32) (w : ℕ → UInt32) (start : ℕ)
    (words : Words) : Words :=
  (range' start 20).foldl (fun words t => round (mix, key) (w t) words) words

def processMessageBlock (sha : Sha1) : Sha1 :=
  let w := wordSequence sha.messageBlock
  let words := rounds choose 0x5A827999 w 0 sha.intermediateHash
  let words := rounds parity 0x6ED9EBA1 w 20 words
  let words := rounds majority 0x8F1BBCDC w 40 words
  let words := rounds parity 0xCA62C1D6 w 60 words
  { sha with intermediateHash := sha.intermediateHash.add words, messageBlockIndex := 0 }

def store (sha : Sha1) (index : ℕ) (bytes : Bytes) : Sha1 :=
  { sha with messageBlock := overwrite sha.messageBlock index bytes }

def padMessage (sha : Sha1) : Sha1 :=
  let index := sha.messageBlockIndex
  let last := storeBE 8 sha.length
  if 55 < index then
    ((sha.store index (0x80 :: replicate (63 - index) 0)).processMessageBlock.store 0
      (replicate 56 0)).store 56 last |>.processMessageBlock
  else
    (sha.store index (0x80 :: replicate (55 - index) 0)).store 56 last |>.processMessageBlock

def reset (sha : Sha1) : Sha1 :=
  { sha with
    length := 0
    messageBlockIndex := 0
    intermediateHash := initialHash
    computed := false
    corrupted := .success }

def getResult (sha : Sha1) : Bytes × Sha1 :=
  let sha :=
    if sha.computed then sha
    else { sha.padMessage with messageBlock := replicate 64 0, length := 0, computed := true }
  (sha.intermediateHash.bytes, sha)

def push (sha : Sha1) (byte : UInt8) : Sha1 :=
  { sha.store sha.messageBlockIndex [byte] with
    messageBlockIndex := sha.messageBlockIndex + 1
    length := (sha.length + 8) % 2 ^ 64 }

def processIfFull (sha : Sha1) : Sha1 :=
  if sha.messageBlockIndex = 64 then sha.processMessageBlock else sha

def inputBytes (sha : Sha1) : Bytes → ShaResult × Sha1
  | [] => (.success, sha)
  | byte :: rest =>
    if (sha.push byte).length = 0 then
      (.inputTooLong, { sha.push byte with corrupted := .inputTooLong })
    else (sha.push byte).processIfFull.inputBytes rest

def input (sha : Sha1) (message : Bytes) : ShaResult × Sha1 :=
  if message = [] then (.success, sha)
  else if sha.computed then (.stateError, { sha with corrupted := .stateError })
  else if sha.corrupted ≠ .success then (sha.corrupted, sha)
  else sha.inputBytes message

/-- The message so far: the blocks that are processed, and the bytes that are collected. -/
structure Holds (sha : Sha1) (message : Bytes) : Prop where
  blocks : ∃ front, front.length % 64 = 0 ∧
    message = front ++ sha.messageBlock.take sha.messageBlockIndex ∧
    sha.intermediateHash = foldBlocks processBlock initialHash front
  length : sha.length = 8 * message.length
  block : sha.messageBlock.length = 64
  index : sha.messageBlockIndex < 64
  computed : sha.computed = false
  corrupted : sha.corrupted = .success

theorem wordSequence_eq (block : Bytes) {t : ℕ} (ht : t < 80) :
    wordSequence block t = expanded block t := by
  have hfilled : ∀ count t, t < 16 + count →
      (range' 16 count).foldl (fun w t => Function.update w t
        (circularShift 1 (w (t - 3) ^^^ w (t - 8) ^^^ w (t - 14) ^^^ w (t - 16)))) (wordAt block) t =
          expanded block t := by
    intro count
    induction count with
    | zero =>
      intro t ht
      rw [expanded, if_pos ht]
      rfl
    | succ count ih =>
      intro t ht
      rw [range'_concat, foldl_append, foldl_cons, foldl_nil, Nat.one_mul]
      rcases eq_or_ne t (16 + count) with rfl | hne
      · rw [Function.update_self, ih _ (by omega), ih _ (by omega), ih _ (by omega),
          ih _ (by omega)]
        nth_rewrite 5 [expanded]
        rw [if_neg (by omega)]
      · rw [Function.update_of_ne hne, ih t (by omega)]
  exact hfilled 64 t ht

theorem rounds_eq (block : Bytes) {quarter : ℕ} (hquarter : quarter < 4) (words : Words) :
    rounds (quarterKey quarter).1 (quarterKey quarter).2 (wordSequence block) (20 * quarter) words =
      (range' (20 * quarter) 20).foldl
        (fun words t => round (quarterKey (t / 20)) (expanded block t) words) words := by
  refine foldl_ext _ _ _ ?_
  intro words t ht
  rw [mem_range'_1] at ht
  have hsame : t / 20 = quarter := by omega
  rw [hsame, wordSequence_eq block (by omega)]

theorem intermediateHash_processMessageBlock (sha : Sha1) :
    sha.processMessageBlock.intermediateHash =
      processBlock sha.intermediateHash sha.messageBlock := by
  have hrange : range 80 = range' (20 * 0) 20 ++ range' (20 * 1) 20 ++ range' (20 * 2) 20 ++
      range' (20 * 3) 20 := by decide
  rw [processBlock, hrange, foldl_append, foldl_append, foldl_append,
    ← rounds_eq _ (by decide), ← rounds_eq _ (by decide), ← rounds_eq _ (by decide),
    ← rounds_eq _ (by decide)]
  rfl

theorem intermediateHash_store (sha : Sha1) (index : ℕ) (bytes : Bytes) :
    (sha.store index bytes).processMessageBlock.intermediateHash =
      processBlock sha.intermediateHash (overwrite sha.messageBlock index bytes) :=
  intermediateHash_processMessageBlock _

variable {sha : Sha1} {message : Bytes}

theorem Holds.push (hholds : sha.Holds message) {byte : UInt8}
    (hbound : (message ++ [byte]).length < 2 ^ 61) :
    (sha.push byte).processIfFull.Holds (message ++ [byte]) ∧ (sha.push byte).length ≠ 0 := by
  obtain ⟨⟨front, hfront, hmessage, hhash⟩, hlength, hblock, hindex, hcomputed, hcorrupted⟩ := hholds
  have htaken : (sha.messageBlock.take sha.messageBlockIndex ++ [byte]).length =
      sha.messageBlockIndex + 1 := by
    rw [length_append, length_take, hblock, min_eq_left hindex.le, length_singleton]
  have hmessageAfter : message ++ [byte] =
      front ++ (sha.push byte).messageBlock.take (sha.messageBlockIndex + 1) := by
    rw [hmessage, append_assoc]
    exact congrArg (front ++ ·) (take_left' htaken).symm
  have hblockAfter : (sha.push byte).messageBlock.length = 64 := by
    rw [Sha1.push, store, overwrite, length_append, htaken, length_drop, length_singleton]
    omega
  rw [length_append, length_singleton] at hbound
  have hlengthAfter : (sha.push byte).length = 8 * (message.length + 1) := by
    rw [Sha1.push, hlength]
    exact Nat.mod_eq_of_lt (by omega)
  refine ⟨?_, by omega⟩
  rw [← length_singleton, ← length_append] at hlengthAfter
  rw [processIfFull]
  split_ifs with hfull
  · have hwhole : message ++ [byte] = front ++ (sha.push byte).messageBlock := by
      rw [hmessageAfter, show sha.messageBlockIndex + 1 = 64 from hfull,
        take_of_length_le hblockAfter.le]
    refine ⟨⟨message ++ [byte], ?_, (append_nil _).symm, ?_⟩, hlengthAfter, hblockAfter,
      Nat.succ_pos 63, hcomputed, hcorrupted⟩
    · rw [hwhole, length_append]
      omega
    · rw [intermediateHash_processMessageBlock, hwhole, foldBlocks_append _ _ hfront,
        foldBlocks_block _ _ hblockAfter, ← hhash]
      rfl
  · exact ⟨⟨front, hfront, hmessageAfter, hhash⟩, hlengthAfter, hblockAfter,
      Nat.lt_of_le_of_ne hindex hfull, hcomputed, hcorrupted⟩

theorem Holds.inputBytes {bytes : Bytes} (hholds : sha.Holds message)
    (hbound : (message ++ bytes).length < 2 ^ 61) :
    (sha.inputBytes bytes).2.Holds (message ++ bytes) := by
  induction bytes generalizing sha message with
  | nil => rwa [append_nil]
  | cons byte rest ih =>
    rw [append_cons] at hbound ⊢
    have hfirst : (message ++ [byte]).length < 2 ^ 61 := by
      rw [length_append] at hbound
      omega
    obtain ⟨hnext, hlength⟩ := hholds.push hfirst
    rw [Sha1.inputBytes, if_neg hlength]
    exact ih hnext hbound

theorem Holds.inputs {pieces : List Bytes} (hholds : sha.Holds message)
    (hbound : (message ++ pieces.flatten).length < 2 ^ 61) :
    (pieces.foldl (fun sha piece => (sha.input piece).2) sha).Holds (message ++ pieces.flatten) := by
  induction pieces generalizing sha message with
  | nil => rwa [flatten_nil, append_nil]
  | cons piece pieces ih =>
    rw [flatten_cons, ← append_assoc] at hbound ⊢
    refine ih ?_ hbound
    rw [length_append] at hbound
    change (sha.input piece).2.Holds _
    rw [Sha1.input]
    split_ifs with hempty hcomputed hcorrupted
    · rwa [hempty, append_nil]
    · simp [hholds.computed] at hcomputed
    · exact absurd hholds.corrupted hcorrupted
    · exact hholds.inputBytes (by omega)

theorem overwrite_overwrite {block value last : Bytes} {pos : ℕ} (hblock : block.length = 64)
    (hvalue : pos + value.length = 56) (hlast : last.length = 8) :
    overwrite (overwrite block pos value) 56 last = block.take pos ++ value ++ last := by
  have hfront : (block.take pos ++ value).length = 56 := by
    rw [length_append, length_take]
    omega
  rw [overwrite, overwrite, take_left' hfront, drop_of_length_le, append_nil]
  rw [length_append, hfront, length_drop]
  omega

/-- The padding of the last bytes, in one block or in two. -/
theorem Holds.padMessage (hholds : sha.Holds message) :
    sha.padMessage.intermediateHash.bytes = sha1 message := by
  obtain ⟨⟨front, hfront, hmessage, hhash⟩, hlength, hblock, hindex, -, -⟩ := hholds
  have hpending : (sha.messageBlock.take sha.messageBlockIndex).length = sha.messageBlockIndex := by
    rw [length_take, hblock, min_eq_left hindex.le]
  have hmod : message.length % 64 = sha.messageBlockIndex := by
    rw [hmessage, length_append, hpending]
    omega
  have hlast := length_storeBE 8 sha.length
  rw [sha1, padded, hmod, ← hlength, hmessage, append_assoc, append_assoc,
    foldBlocks_append _ _ hfront, ← hhash, Sha1.padMessage]
  by_cases hlong : 55 < sha.messageBlockIndex
  · have hzeros : (119 - sha.messageBlockIndex) % 64 = 63 - sha.messageBlockIndex + 56 := by omega
    have hfirst : overwrite sha.messageBlock sha.messageBlockIndex
        (0x80 :: replicate (63 - sha.messageBlockIndex) 0) =
          sha.messageBlock.take sha.messageBlockIndex ++
            0x80 :: replicate (63 - sha.messageBlockIndex) 0 := by
      rw [overwrite, drop_of_length_le, append_nil]
      rw [length_cons, length_replicate]
      omega
    have hsize : (sha.messageBlock.take sha.messageBlockIndex ++
        0x80 :: replicate (63 - sha.messageBlockIndex) 0).length = 64 := by
      rw [length_append, hpending, length_cons, length_replicate]
      omega
    rw [if_pos hlong, hzeros, replicate_add, ← cons_append, append_assoc, ← append_assoc _ _ (_ ++ _),
      foldBlocks_append _ _ (by rw [hsize]), foldBlocks_block _ _ hsize,
      foldBlocks_block _ _ (by rw [length_append, length_replicate, hlast]), ← hfirst,
      ← intermediateHash_store, intermediateHash_store]
    have hsecond := @overwrite_overwrite _ (replicate 56 0) _ 0 (hfirst ▸ hsize)
      (by rw [length_replicate]) hlast
    exact congrArg (fun block => (processBlock _ block).bytes) hsecond
  · have hzeros : (119 - sha.messageBlockIndex) % 64 = 55 - sha.messageBlockIndex := by omega
    rw [if_neg hlong, hzeros, foldBlocks_block, intermediateHash_store]
    · refine congrArg (fun block => (processBlock _ block).bytes) ?_
      rw [← append_assoc]
      refine overwrite_overwrite hblock ?_ hlast
      rw [length_cons, length_replicate]
      omega
    · rw [length_append, hpending, length_append, length_cons, length_replicate, hlast]
      omega

theorem getResult_inputs (hblock : sha.messageBlock.length = 64) {pieces : List Bytes}
    (hbound : pieces.flatten.length < 2 ^ 61) :
    let after := pieces.foldl (fun sha piece => (sha.input piece).2) sha.reset
    after.getResult.1 = sha1 pieces.flatten ∧ after.getResult.2.getResult.1 = sha1 pieces.flatten := by
  intro after
  have hstart : sha.reset.Holds [] := by
    refine ⟨⟨[], rfl, rfl, ?_⟩, rfl, hblock, Nat.succ_pos 63, rfl, rfl⟩
    rw [foldBlocks, if_pos (by decide)]
    rfl
  have hafter : after.Holds pieces.flatten := hstart.inputs hbound
  have hdigest := hafter.padMessage
  rw [getResult, hafter.computed]
  exact ⟨hdigest, hdigest⟩

theorem getResult_inputs_abc :
    let sha : Sha1 := ⟨0, initialHash, false, .success, 0, replicate 64 0⟩
    ((([[97], [98, 99]] : List Bytes).foldl (fun sha piece => (sha.input piece).2)
      sha.reset).getResult).1 = sha1 [97, 98, 99] :=
  (@getResult_inputs ⟨0, initialHash, false, .success, 0, replicate 64 0⟩ rfl
    [[97], [98, 99]] (by decide)).1

end Sha1

end OblogProxy.Protocol
