import MaluDb.Lib.Path

/-!
# The paths of file secrets

`path_check_allowed` of `src/maludb_secret.c` scans the path for `/../` and `/./` and compares it
with the roots of `maludb_core.secret_file_root`, a list with colons. What it is for is said on the
names of the path: `Lib.Path.normalise` and `Lib.Path.Below`.
-/

namespace MaluDb.Secret

open Lib Lib.Path List

def secretFileRootDefault : List Char := "/etc/maludb/secrets:/var/lib/maludb/secrets".toList

/-- The text of `maludb_core.secret_file_root`, or the default if it is not set or empty. -/
def secretFileRoot (rootsEnv : Option (List Char)) : List Char :=
  match rootsEnv with
  | none | some [] => secretFileRootDefault
  | some roots => roots

def allowedRoots (rootsEnv : Option (List Char)) : List (List Char) :=
  ((secretFileRoot rootsEnv).splitOn ':').filter (· ≠ [])

/-- The comparison with a root: `strncmp`, and a slash or the end behind it. -/
def matchesRoot (path root : List Char) : Bool :=
  root.isPrefixOf path && match path.drop root.length with
    | [] => true
    | c :: _ => c = '/'

/-- Text written by `snprintf`. -/
def snprintf (errlen : ℕ) (text : List Char) : List Char := text.take (errlen - 1)

/-- `path_check_allowed`, with the text left in `err`. -/
def pathCheckAllowed (rootsEnv : Option (List Char)) (path : Option (List Char)) (errlen : ℕ) :
    Except (List Char) Unit :=
  match path with
  | some ('/' :: rest) =>
    let path := '/' :: rest
    if "/../".toList <:+: path ∨ "/./".toList <:+: path then
      .error (snprintf errlen "file:// path may not contain '..' or '.' segments".toList)
    else if (allowedRoots rootsEnv).any (matchesRoot path) then .ok ()
    else
      .error (snprintf errlen ("file:// path '".toList ++ path ++
        "' is outside the configured maludb_core.secret_file_root allowlist".toList))
  | _ => .error (snprintf errlen "file:// path must be absolute".toList)

/-! ## What is accepted -/

variable {rootsEnv : Option (List Char)} {path root : List Char} {errlen : ℕ}

theorem matchesRoot_iff :
    matchesRoot path root = true ↔ path = root ∨ ∃ rest, path = root ++ '/' :: rest := by
  rw [matchesRoot, Bool.and_eq_true, isPrefixOf_iff_prefix]
  constructor
  · rintro ⟨⟨rest, rfl⟩, h⟩
    rw [drop_left] at h
    cases rest with
    | nil => exact .inl (append_nil root)
    | cons c rest =>
      obtain rfl : c = '/' := of_decide_eq_true h
      exact .inr ⟨rest, rfl⟩
  · rintro (rfl | ⟨rest, rfl⟩)
    · simp
    · simp

theorem accepted (h : pathCheckAllowed rootsEnv (some path) errlen = .ok ()) :
    dot ∉ (segments path).dropLast ∧ dotdot ∉ (segments path).dropLast ∧
      ∃ root ∈ allowedRoots rootsEnv, path = root ∨ ∃ rest, path = root ++ '/' :: rest := by
  unfold pathCheckAllowed at h
  split at h
  · rename_i rest hpath
    obtain rfl : path = '/' :: rest := Option.some.inj hpath
    simp only at h
    split at h
    · cases h
    rename_i hscan
    rw [not_or] at hscan
    split at h
    · rename_i hroots
      obtain ⟨root, hroot, hmatch⟩ := any_eq_true.mp hroots
      exact ⟨not_mem_dropLast_segments (by decide) hscan.2,
        not_mem_dropLast_segments (by decide) hscan.1, root, hroot, matchesRoot_iff.mp hmatch⟩
    · cases h
  · cases h

/-- **The names of an accepted path.** -/
theorem normalise_of_accepted (h : pathCheckAllowed rootsEnv (some path) errlen = .ok ()) :
    ∃ root ∈ allowedRoots rootsEnv, path = root ∨ ∃ rest, path = root ++ '/' :: rest ∧
      normalise path = enter (normalise root ++ (segments rest).dropLast.filter (· ≠ []))
        (lastSegment rest) := by
  obtain ⟨hdot, hdotdot, root, hroot, rfl | ⟨rest, rfl⟩⟩ := accepted h
  · exact ⟨path, hroot, .inl rfl⟩
  · rw [dropLast_segments_append, mem_append, not_or] at hdot hdotdot
    exact ⟨root, hroot, .inr ⟨rest, rfl, normalise_of_dropLast hdot.2 hdotdot.2⟩⟩

/-- Nothing but slashes and `.`. -/
def Stays (rest : List Char) : Prop := ∀ seg ∈ segments rest, seg = [] ∨ seg = dot

theorem stays_of_inner {rest : List Char} (hinner : (segments rest).dropLast.filter (· ≠ []) = [])
    (hlast : lastSegment rest = [] ∨ lastSegment rest = dot) : Stays ('/' :: rest) := by
  intro seg hseg
  rw [segments_slash, ← dropLast_append_lastSegment rest, mem_cons, mem_append,
    mem_singleton] at hseg
  rcases hseg with rfl | hseg | rfl
  · exact .inl rfl
  · exact .inl (by simpa using filter_eq_nil_iff.mp hinner seg hseg)
  · exact hlast

/-- **An accepted path that does not end in `..` is below a root, or is the root if nothing but
slashes and a `.` follows it.** -/
theorem pathCheckAllowed_below (h : pathCheckAllowed rootsEnv (some path) errlen = .ok ())
    (hlast : lastSegment path ≠ dotdot) :
    ∃ root ∈ allowedRoots rootsEnv, ∃ rest, path = root ++ rest ∧
      (Below (normalise path) (normalise root) ∨ Stays rest ∧ normalise path = normalise root) := by
  obtain ⟨root, hroot, rfl | ⟨rest, rfl, hnames⟩⟩ := normalise_of_accepted h
  · refine ⟨path, hroot, [], (append_nil path).symm, .inr ⟨?_, rfl⟩⟩
    intro seg hseg
    exact .inl (mem_singleton.mp hseg)
  rw [lastSegment_append] at hlast
  refine ⟨root, hroot, '/' :: rest, rfl, ?_⟩
  rw [hnames]
  by_cases hstay : lastSegment rest = [] ∨ lastSegment rest = dot
  · rw [enter, if_pos hstay]
    by_cases hinner : (segments rest).dropLast.filter (· ≠ []) = []
    · exact .inr ⟨stays_of_inner hinner hstay, by rw [hinner, append_nil]⟩
    · exact .inl ⟨_, hinner, rfl⟩
  · rw [enter, if_neg hstay, if_neg hlast, append_assoc]
    exact .inl ⟨_, by simp, rfl⟩

theorem pathCheckAllowed_below_key :
    let path := "/etc/maludb/secrets/db.key".toList
    pathCheckAllowed none (some path) 256 = .ok () ∧
      ∃ root ∈ allowedRoots none, ∃ rest, path = root ++ rest ∧
        (Below (normalise path) (normalise root) ∨
          Stays rest ∧ normalise path = normalise root) := by
  have h : pathCheckAllowed none (some "/etc/maludb/secrets/db.key".toList) 256 = .ok () := by
    decide +kernel
  exact ⟨h, pathCheckAllowed_below h (by decide +kernel)⟩

/-- **Two accepted paths that are not below a root.** The first one ends in `/..`, which the scan
for `/../` does not find, and names the parent of a root. The second one is a root. -/
theorem pathCheckAllowed_escapes :
    let parent := "/etc/maludb/secrets/..".toList
    let top := "/etc/maludb/secrets".toList
    (pathCheckAllowed none (some parent) 256 = .ok () ∧
      normalise parent = ["etc".toList, "maludb".toList] ∧
      ∀ root ∈ allowedRoots none, ¬ Below (normalise parent) (normalise root)) ∧
    (pathCheckAllowed none (some top) 256 = .ok () ∧
      ∀ root ∈ allowedRoots none, ¬ Below (normalise top) (normalise root)) := by
  have hroots : ∀ root ∈ allowedRoots none, 3 ≤ (normalise root).length := by decide +kernel
  refine ⟨⟨by decide +kernel, by decide +kernel, ?_⟩, by decide +kernel, ?_⟩
  · intro root hroot hbelow
    have hlt := hbelow.length_lt
    have hlen : (normalise "/etc/maludb/secrets/..".toList).length = 2 := by decide +kernel
    have := hroots root hroot
    omega
  intro root hroot hbelow
  have hlt := hbelow.length_lt
  have hlen : (normalise "/etc/maludb/secrets".toList).length = 3 := by decide +kernel
  have := hroots root hroot
  omega

end MaluDb.Secret
