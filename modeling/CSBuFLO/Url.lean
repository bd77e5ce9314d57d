/-
# Page URLs and the cluster table (`misc.c`, `hashmap.c`)

`set_url` copies a URL out of a request or a message into the global `url`, without being
told where the bytes end; a URL of more than 255 bytes is replaced by a fixed one.
`hm_lookup` finds the cluster of a URL; `-1` means that there is none.

The round trip `setUrl_urlPayload` says that the server recovers the client's URL from
`NOTIFY_URL`, whatever random bytes follow it.
-/
import CSBuFLO.PacketFormat

namespace CSBuFLO

/-! ## `set_url` -/

/-- The space character, which ends a URL. -/
def space : UInt8 := 32

/-- The number of bytes from index `i` on before the first space, at most `limit`. -/
def urlScan (p : ℕ → UInt8) : ℕ → ℕ → ℕ
  | 0, _ => 0
  | limit + 1, i => if p i = space then 0 else urlScan p limit (i + 1) + 1

/-- `"www.google.com "`. -/
def fallbackUrl : List UInt8 :=
  [119, 119, 119, 46, 103, 111, 111, 103, 108, 101, 46, 99, 111, 109, 32]

/-- `set_url` on the memory `p`: the first `urllen` bytes of `url`. -/
def setUrl (p : ℕ → UInt8) (offset : ℕ) : List UInt8 :=
  let n := urlScan p 255 offset
  if p (offset + n) = space then (List.range n).map (fun k => p (offset + k)) ++ [space]
  else fallbackUrl

/-- A buffer as memory: its bytes, followed by whatever is stored behind them. -/
def memory (bytes : List UInt8) (beyond : ℕ → UInt8) (i : ℕ) : UInt8 :=
  if h : i < bytes.length then bytes.get ⟨i, h⟩ else beyond (i - bytes.length)

/-- The URLs `set_url` can leave: at most 255 bytes that are not a space, and a space. -/
structure StoredUrl (url : List UInt8) : Prop where
  intro ::
  exists_eq : ∃ body, url = body ++ [space] ∧ space ∉ body ∧ body.length ≤ 255

theorem urlScan_le (p : ℕ → UInt8) (limit i : ℕ) : urlScan p limit i ≤ limit := by
  induction limit generalizing i with
  | zero => exact le_refl 0
  | succ limit ih =>
    unfold urlScan
    split
    · omega
    · have := ih (i + 1)
      omega

/-- No space stands before the end of the scan. -/
theorem ne_space_of_lt_urlScan (p : ℕ → UInt8) {limit i k : ℕ} (h : k < urlScan p limit i) :
    p (i + k) ≠ space := by
  induction limit generalizing i k with
  | zero => simp [urlScan] at h
  | succ limit ih =>
    unfold urlScan at h
    split at h
    · omega
    · rename_i hne
      cases k with
      | zero => exact hne
      | succ k =>
        have := ih (i := i + 1) (k := k) (by omega)
        rwa [show i + (k + 1) = i + 1 + k by omega]

/-- The scan stops at the first space within the limit. -/
theorem urlScan_eq (p : ℕ → UInt8) {limit i n : ℕ} (hn : n ≤ limit) (hspace : p (i + n) = space)
    (hbefore : ∀ k < n, p (i + k) ≠ space) : urlScan p limit i = n := by
  induction limit generalizing i n with
  | zero =>
    obtain rfl : n = 0 := by omega
    rfl
  | succ limit ih =>
    unfold urlScan
    cases n with
    | zero => rw [if_pos (by simpa using hspace)]
    | succ n =>
      rw [if_neg (by simpa using hbefore 0 (by omega))]
      rw [ih (n := n) (by omega) (by rwa [show i + 1 + n = i + (n + 1) by omega])
        (fun k hk => by
          have := hbefore (k + 1) (by omega)
          rwa [show i + 1 + k = i + (k + 1) by omega])]

/-- Whatever `set_url` reads, the URL it leaves is well formed. -/
theorem storedUrl_setUrl (p : ℕ → UInt8) (offset : ℕ) : StoredUrl (setUrl p offset) := by
  unfold setUrl
  dsimp only
  split
  · refine ⟨_, rfl, ?_, ?_⟩
    · intro hmem
      obtain ⟨k, hk, heq⟩ := List.mem_map.mp hmem
      exact ne_space_of_lt_urlScan p (List.mem_range.mp hk) heq
    · rw [List.length_map, List.length_range]
      exact urlScan_le p 255 offset
  · exact ⟨[119, 119, 119, 46, 103, 111, 111, 103, 108, 101, 46, 99, 111, 109], rfl, by decide,
      by decide⟩

/-- Reading inside the bytes of a buffer. -/
theorem memory_append_right (a b c : List UInt8) (beyond : ℕ → UInt8) {k : ℕ} (hk : k < b.length) :
    memory (a ++ b ++ c) beyond (a.length + k) = b.get ⟨k, hk⟩ := by
  unfold memory
  rw [dif_pos (by simp; omega)]
  simp [List.getElem_append_right, List.getElem_append_left, hk]

/-- **The URL round trip.**  The server's `set_url` on a `NOTIFY_URL` message gives the
client's URL, whatever follows it. -/
theorem setUrl_urlPayload {url : List UInt8} (hurl : StoredUrl url) (random : List UInt8)
    (beyond : ℕ → UInt8) : setUrl (memory (urlPayload url random).tail beyond) 4 = url := by
  obtain ⟨body, rfl, hbody, hlen⟩ := hurl
  have hmem : ∀ k (hk : k < (body ++ [space]).length),
      memory (urlPayload (body ++ [space]) random).tail beyond (4 + k) =
        (body ++ [space]).get ⟨k, hk⟩ := by
    intro k hk
    have := memory_append_right (putU32 (body ++ [space]).length) (body ++ [space]) random beyond hk
    rw [length_putU32, List.append_assoc] at this
    exact this
  have hscan : urlScan (memory (urlPayload (body ++ [space]) random).tail beyond) 255 4 =
      body.length := by
    refine urlScan_eq _ hlen ?_ ?_
    · rw [hmem body.length (by simp)]
      simp
    · intro k hk
      rw [hmem k (by simp; omega)]
      simp only [List.get_eq_getElem, List.getElem_append_left hk]
      exact fun heq => hbody (heq ▸ List.getElem_mem hk)
  unfold setUrl
  simp only [hscan]
  rw [if_pos (by rw [hmem body.length (by simp)]; simp)]
  congr 1
  refine List.ext_getElem (by simp) fun k hk _ => ?_
  rw [List.length_map, List.length_range] at hk
  simp only [List.getElem_map, List.getElem_range]
  rw [hmem k (by simp; omega)]
  simp [List.getElem_append_left hk]

/-! ## The cluster table -/

/-- `HMSIZE`. -/
def hmSize : ℕ := 5000

/-- A `char` of the key added to the hash: characters are signed. -/
def signedChar (b : UInt8) : UInt32 :=
  if b.toNat < 128 then b.toUInt32 else b.toUInt32 + 0xffffff00

/-- One round of `default_hash`. -/
def hashRound (hash : UInt32) (b : UInt8) : UInt32 :=
  let hash := hash + signedChar b
  let hash := hash + (hash <<< 10)
  hash ^^^ (hash >>> 6)

/-- The part of a key before its first space or NUL. -/
def cutKey (key : List UInt8) : List UInt8 := key.takeWhile fun b => b != space && b != 0

/-- `default_hash`. -/
def defaultHash (key : List UInt8) : UInt32 :=
  let hash := (cutKey key).foldl hashRound 0
  let hash := hash + (hash <<< 3)
  let hash := hash ^^^ (hash >>> 11)
  hash + (hash <<< 15)

/-- The hash table: a list of key and value for each bucket.  `hm_build` refuses cluster
ids that are not positive, so every stored value is. -/
structure Hashmap where
  buckets : ℕ → List (List UInt8 × ℤ)
  pos : ∀ i kv, kv ∈ buckets i → 0 < kv.2

/-- A table without pages. -/
theorem Hashmap.pos_noPage (i : ℕ) (kv : List UInt8 × ℤ)
    (h : kv ∈ (fun _ => [] : ℕ → List (List UInt8 × ℤ)) i) : 0 < kv.2 := by
  cases h

/-- A table with the page `a`. -/
theorem Hashmap.pos_pageA (i : ℕ) (kv : List UInt8 × ℤ)
    (h : kv ∈ (fun _ => [([97], 1)] : ℕ → List (List UInt8 × ℤ)) i) : 0 < kv.2 := by
  rw [List.mem_singleton.mp h]
  decide

/-- A table with the pages `a` and `b`. -/
theorem Hashmap.pos_pagesAB (i : ℕ) (kv : List UInt8 × ℤ)
    (h : kv ∈ (fun _ => [([97], 1), ([98], 2)] : ℕ → List (List UInt8 × ℤ)) i) : 0 < kv.2 := by
  rcases List.mem_pair.mp h with rfl | rfl <;> decide

/-- `hm_lookup`. -/
def hmLookup (hm : Hashmap) (key : List UInt8) : ℤ :=
  let tmpkey := cutKey key
  match (hm.buckets ((defaultHash tmpkey).toNat % hmSize)).find? fun kv => kv.1 = tmpkey with
  | some kv => kv.2
  | none => -1

/-- A lookup gives `-1` or a positive cluster id. -/
theorem hmLookup_pos (hm : Hashmap) (key : List UInt8) :
    hmLookup hm key = -1 ∨ 0 < hmLookup hm key := by
  unfold hmLookup
  dsimp only
  split
  · rename_i kv hfind
    exact Or.inr (hm.pos _ kv (List.mem_of_find?_eq_some hfind))
  · exact Or.inl rfl

/-- The databases both hosts load: the clusters of URLs and the trace of each cluster, as
`change_to_relative_time` and `split` leave it. -/
structure Tables where
  clusters : Hashmap
  straces : ℤ → List StPair

/-- Tables without any cluster. -/
def noTables : Tables := ⟨⟨fun _ => [], Hashmap.pos_noPage⟩, fun _ => []⟩

/-- `set_cluster_id` once the databases are loaded. -/
def setClusterId (T : Tables) (g : Globals) : Globals :=
  let id := hmLookup T.clusters g.url
  { g with clusterId := id, stIndex := if id ≠ -1 then 0 else g.stIndex }

end CSBuFLO
