/-
# URLs in memory

`set_url` is given an address and no length: it copies up to the first space, and reads at most
256 bytes.  The bytes of a request or of a message are followed by whatever the memory holds.

* `UrlEnds` : the copy ends within the bytes;
* `setUrl_append` : then the URL does not depend on what follows;
* `exists_setUrl_ne` : otherwise it does.
-/
import CSBuFLO.Url

namespace CSBuFLO

/-! ## Memory -/

theorem memory_of_lt {l : List UInt8} {i : ℕ} (h : i < l.length) (beyond : ℕ → UInt8) :
    memory l beyond i = l.getD i 0 := by
  unfold memory
  rw [dif_pos h, List.getD_eq_getElem _ _ h, List.get_eq_getElem]

theorem memory_of_le {l : List UInt8} {i : ℕ} (h : l.length ≤ i) (beyond : ℕ → UInt8) :
    memory l beyond i = beyond (i - l.length) := by
  unfold memory
  rw [dif_neg (by omega)]

/-- More bytes are memory behind the first ones. -/
theorem memory_append (l t : List UInt8) (beyond : ℕ → UInt8) :
    memory (l ++ t) beyond = memory l (memory t beyond) := by
  funext i
  rcases Nat.lt_or_ge i l.length with hi | hi
  · rw [memory_of_lt hi, memory_of_lt (by rw [List.length_append]; omega),
      List.getD_append _ _ _ _ hi]
  · rw [memory_of_le hi]
    rcases Nat.lt_or_ge (i - l.length) t.length with ht | ht
    · rw [memory_of_lt ht, memory_of_lt (by rw [List.length_append]; omega),
        List.getD_append_right _ _ _ _ hi]
    · rw [memory_of_le ht, memory_of_le (by rw [List.length_append]; omega), List.length_append,
        Nat.sub_sub]

/-! ## What the copy depends on -/

/-- The scan only depends on the bytes up to its end. -/
theorem urlScan_congr {p q : ℕ → UInt8} {limit i : ℕ}
    (h : ∀ k ≤ urlScan p limit i, p (i + k) = q (i + k)) :
    urlScan q limit i = urlScan p limit i := by
  induction limit generalizing i with
  | zero => rfl
  | succ limit ih =>
    have h0 := h 0 (Nat.zero_le _)
    rw [Nat.add_zero] at h0
    unfold urlScan at h ⊢
    by_cases hspace : p i = space
    · rw [if_pos hspace, if_pos (h0 ▸ hspace)]
    · rw [if_neg hspace] at h ⊢
      rw [if_neg (h0 ▸ hspace), ih fun k hk => ?_]
      have := h (k + 1) (by omega)
      rwa [show i + (k + 1) = i + 1 + k by omega] at this

theorem setUrl_congr {p q : ℕ → UInt8} {offset : ℕ}
    (h : ∀ k ≤ urlScan p 255 offset, p (offset + k) = q (offset + k)) :
    setUrl q offset = setUrl p offset := by
  unfold setUrl
  dsimp only
  rw [urlScan_congr h, h _ le_rfl]
  have hbytes : (List.range (urlScan p 255 offset)).map (fun k => q (offset + k)) =
      (List.range (urlScan p 255 offset)).map fun k => p (offset + k) :=
    List.map_congr_left fun k hk => (h k (List.mem_range.mp hk).le).symm
  rw [hbytes]

/-- The copy that begins at `offset` ends within the bytes: at a space, or because it has read 256
of them. -/
def UrlEnds (offset : ℕ) (bytes : List UInt8) : Prop :=
  space ∈ bytes.drop offset ∨ offset + 255 < bytes.length

variable {offset : ℕ} {bytes : List UInt8}

theorem space_mem_drop {k : ℕ} (hk : offset + k < bytes.length) {beyond : ℕ → UInt8}
    (h : memory bytes beyond (offset + k) = space) : space ∈ bytes.drop offset := by
  rw [memory_of_lt hk, List.getD_eq_getElem _ _ hk] at h
  rw [← h, ← List.getElem_drop]
  exact List.getElem_mem (by rw [List.length_drop]; omega)

theorem urlScan_lt (h : UrlEnds offset bytes) (beyond : ℕ → UInt8) :
    offset + urlScan (memory bytes beyond) 255 offset < bytes.length := by
  rcases h with hspace | hlong
  · obtain ⟨k, hk, hget⟩ := List.getElem_of_mem hspace
    rw [List.length_drop] at hk
    rw [List.getElem_drop] at hget
    by_contra hle
    have hlt : k < urlScan (memory bytes beyond) 255 offset := by omega
    refine ne_space_of_lt_urlScan (memory bytes beyond) hlt ?_
    rw [memory_of_lt (by omega), List.getD_eq_getElem _ _ (by omega)]
    exact hget
  · have := urlScan_le (memory bytes beyond) 255 offset
    omega

/-- **A URL that ends within the bytes is what it is whatever follows.** -/
theorem setUrl_append (h : UrlEnds offset bytes) (beyond beyond' : ℕ → UInt8) (t : List UInt8) :
    setUrl (memory (bytes ++ t) beyond') offset = setUrl (memory bytes beyond) offset := by
  have hlt := urlScan_lt h beyond
  refine setUrl_congr fun k hk => ?_
  rw [memory_of_lt (by omega), memory_of_lt (by rw [List.length_append]; omega),
    List.getD_append _ _ _ _ (by omega)]

/-- A URL that does not is completed by the memory behind it, here by spaces. -/
theorem setUrl_spaces (h : ¬ UrlEnds offset bytes) :
    setUrl (memory bytes fun _ => space) offset = bytes.drop offset ++ [space] := by
  obtain ⟨hspace, hshort⟩ := not_or.mp h
  have hscan : urlScan (memory bytes fun _ => space) 255 offset = bytes.length - offset := by
    refine urlScan_eq _ (by omega) ?_ fun k hk heq => hspace (space_mem_drop (by omega) heq)
    rw [memory_of_le (by omega)]
  unfold setUrl
  dsimp only
  rw [hscan, if_pos (memory_of_le (by omega) _)]
  congr 1
  refine List.ext_getElem (by simp) fun k hk _ => ?_
  rw [List.length_map, List.length_range] at hk
  rw [List.getElem_map, List.getElem_range, memory_of_lt (by omega),
    List.getD_eq_getElem _ _ (by omega), List.getElem_drop]

/-- One more byte behind a URL that has begun makes another URL of it. -/
theorem setUrl_ne (h : ¬ UrlEnds offset bytes) (hlen : offset ≤ bytes.length) :
    setUrl (memory (bytes ++ [97]) fun _ => space) offset ≠
      setUrl (memory bytes fun _ => space) offset := by
  intro heq
  have hlength := congrArg List.length heq
  rw [setUrl_spaces h] at hlength
  obtain ⟨hspace, hshort⟩ := not_or.mp h
  have hnone : space ∉ (bytes ++ [97]).drop offset := by
    rw [List.drop_append_of_le_length hlen, List.mem_append, not_or]
    exact ⟨hspace, by decide⟩
  by_cases hends : UrlEnds offset (bytes ++ [97])
  · -- 255 bytes without a space: the fixed URL is taken instead
    have hlt := urlScan_lt hends fun _ => space
    have hbyte : memory (bytes ++ [97]) (fun _ => space)
        (offset + urlScan (memory (bytes ++ [97]) fun _ => space) 255 offset) ≠ space :=
      fun hbyte => hnone (space_mem_drop hlt hbyte)
    have hlong := hends.resolve_left hnone
    unfold setUrl at hlength
    dsimp only at hlength
    rw [if_neg hbyte] at hlength
    simp only [List.length_append, List.length_drop, List.length_singleton] at hlength hlong
    have : fallbackUrl.length = 15 := rfl
    omega
  · rw [setUrl_spaces hends] at hlength
    simp only [List.length_append, List.length_drop, List.length_singleton] at hlength
    omega

/-- **A URL that does not end within the bytes depends on what follows.** -/
theorem exists_setUrl_ne (h : ¬ UrlEnds offset bytes) :
    ∃ beyond beyond',
      setUrl (memory bytes beyond') offset ≠ setUrl (memory bytes beyond) offset := by
  -- as far as the offset the memory is of no importance
  obtain ⟨fill, hfill⟩ : ∃ fill, fill = List.replicate (offset - bytes.length) space := ⟨_, rfl⟩
  have hlength : fill.length = offset - bytes.length := by rw [hfill, List.length_replicate]
  have hdrop : (bytes ++ fill).drop offset = bytes.drop offset := by
    rw [List.drop_append, List.drop_of_length_le (l := fill) (by omega), List.append_nil]
  have hends : ¬ UrlEnds offset (bytes ++ fill) := by
    obtain ⟨hspace, hshort⟩ := not_or.mp h
    refine not_or.mpr ⟨hdrop ▸ hspace, ?_⟩
    rw [List.length_append]
    omega
  have hne := setUrl_ne hends (by rw [List.length_append]; omega)
  rw [List.append_assoc, memory_append, memory_append bytes fill] at hne
  exact ⟨_, _, hne⟩

end CSBuFLO
