import Trellis.Proofs.Resolution

/-!
# `Trellis.Proofs.Memory`: what a loader of sources in memory promises

Facts about `Memory.loader`. The names that it lists are all that can be asked for
without a leading slash (`complete_loader`), so that resolution never misses a source. A
source can only be missing (`of_source_eq_error`). And its versions hold no hyphen, since they are written in hexadecimal digits
(`hyphen_notMem_version`), so that a name and a version can be told apart in a cache key.
-/

set_option autoImplicit false

namespace Trellis

/-! ### Fingerprints -/

theorem Text.digitChar_ne_hyphen (n : Nat) : n.digitChar ≠ '-' := by
  grind [Nat.digitChar]

/-- Digits written in front of a text without hyphens make another one. -/
theorem Text.hyphen_notMem_toDigitsCore (base fuel n : Nat) (ds : List Char) (h : '-' ∉ ds) :
    '-' ∉ Nat.toDigitsCore base fuel n ds := by
  induction fuel generalizing n ds with
  | zero => exact h
  | succ fuel ih =>
    have hcons : '-' ∉ (n % base).digitChar :: ds := by
      simp [h, (digitChar_ne_hyphen (n % base)).symm]
    rw [Nat.toDigitsCore]
    split
    · exact hcons
    · exact ih _ _ hcons

theorem Text.hyphen_notMem_fingerprint (s : String) : '-' ∉ (fingerprint s).toList := by
  rw [fingerprint, String.toList_ofList]
  exact hyphen_notMem_toDigitsCore _ _ _ _ (by simp)

namespace Memory

/-! ### Names -/

theorem find?_of_source {m : Memory} {name source : String} (h : m.source name = .ok source) :
    m.sources.find? (shortName name) = some source := by
  rw [Memory.source] at h
  split at h
  · next s hs => rw [hs, Except.ok.inj h]
  · cases h

/-- The only failure of sources in memory is that there is none. -/
theorem of_source_eq_error {m : Memory} {name : String} {e : Error}
    (h : m.source name = .error e) : e = .notFound name ∧ m.holds name = false := by
  unfold source at h
  cases hfind : m.sources.find? (shortName name) with
  | some source =>
    rw [hfind] at h
    cases h
  | none =>
    rw [hfind] at h
    cases h
    refine ⟨rfl, ?_⟩
    unfold holds Table.has
    rw [hfind]
    rfl

/-- A name without a leading slash is its short name, maybe with the ending. -/
theorem eq_shortName_or {name : String} (h : name.toList.head? ≠ some '/') :
    name = shortName name ∨ name = shortName name ++ String.ofList ending := by
  have hrelative : Text.Path.relative name.toList = name.toList := by
    rw [Text.Path.relative]
    cases hcs : name.toList with
    | nil => rfl
    | cons c cs =>
      rw [hcs] at h
      have hc : c ≠ '/' := fun hc => h (by simp [hc])
      simp [hc]
  rw [shortName, hrelative]
  cases hb : Text.before? ending name.toList with
  | none => exact Or.inl (by simp)
  | some stem =>
    refine Or.inr ?_
    obtain ⟨rest, hrest, rfl⟩ := Option.map_eq_some_iff.mp hb
    have hname : name.toList = rest.reverse ++ ending := by
      have := congrArg List.reverse (Text.append_of_after? hrest)
      simpa using this
    rw [← String.toList_inj, hname]
    simp

/-- Every name without a leading slash that has a source is listed. -/
theorem complete_loader (m : Memory) : m.loader.Complete := by
  intro name source hname hsource _
  have hkey := Table.mem_keys_of_find? (find?_of_source hsource)
  refine List.mem_flatMap.mpr ⟨shortName name, hkey, ?_⟩
  rcases eq_shortName_or hname with h | h
  · exact h ▸ List.mem_cons_self
  · exact h ▸ List.mem_cons_of_mem _ List.mem_cons_self

/-! ### Versions -/

/-- The version of a name is the fingerprint of its source. -/
theorem version_eq_ok_iff {m : Memory} {name version : String} :
    m.loader.version name = .ok version ↔
      ∃ source, m.source name = .ok source ∧ Text.fingerprint source = version := by
  change (m.source name).map Text.fingerprint = .ok version ↔ _
  cases m.source name with
  | error e => simp [Except.map]
  | ok source => simp [Except.map]

theorem hyphen_notMem_version {m : Memory} {name version : String}
    (h : m.loader.version name = .ok version) : '-' ∉ version.toList := by
  obtain ⟨source, -, rfl⟩ := version_eq_ok_iff.mp h
  exact Text.hyphen_notMem_fingerprint source

end Memory

end Trellis
