import SpoolCache.Base.Except
import SpoolCache.Base.Sha256
import SpoolCache.Core.Values

/-!
# The fingerprint of an installed package

`compat.py:359–427`. The files of each package root are hashed in one stream: the index of the
root in four bytes, and for each file its name, a zero byte, its size in eight bytes and its
content. Nothing else separates the records. A name is not empty and has no zero byte, and an
index below `2 ^ 24` begins with one, so the first byte of a record tells a file from a root.
-/

namespace SpoolCache.Connector

open SpoolCache.Base

/-- A file as it is read, with the range of `st_size`. -/
structure PackageFile where
  relativeName : String
  content : Bytes
  name_ne : relativeName ≠ ""
  name_nul : (0 : UInt8) ∉ utf8 relativeName
  size_lt : content.length < 2 ^ 63

/-- The files of a root as `_package_files` returns them, `compat.py:359–377`. -/
structure PackageRoot where
  files : List PackageFile
  sorted : (files.map PackageFile.relativeName).Pairwise (· < ·)

/-- `value.to_bytes(width, "big")`. -/
def toBytesBig (width n : Nat) : Except PyError Bytes :=
  if n < 256 ^ width then .ok (beBytes width n)
  else .error (.overflowError "int too big to convert")

/-- The pieces of `handle.read(1024 * 1024)`, `compat.py:395–396`. -/
def readChunks (content : Bytes) : List Bytes :=
  if _h : content = [] then []
  else content.take (1024 * 1024) :: readChunks (content.drop (1024 * 1024))
termination_by content.length
decreasing_by
  have hpos := List.length_pos_iff.mpr _h
  rw [List.length_drop]
  omega

/-- What a file adds to the hash, `compat.py:389–396`. -/
def fileBytes (file : PackageFile) : Except PyError Bytes := do
  let size ← toBytesBig 8 file.content.length
  pure (utf8 file.relativeName ++ [0] ++ size ++ (readChunks file.content).flatten)

/-- What a root adds to the hash, `compat.py:385–396`. -/
def rootBytes (rootIndex : Nat) (root : PackageRoot) : Except PyError Bytes := do
  let index ← toBytesBig 4 rootIndex
  let files ← root.files.mapM fileBytes
  pure (index ++ files.flatten)

/-- The roots from an index on. -/
def rootsBytes : Nat → List PackageRoot → Except PyError Bytes
  | _, [] => .ok []
  | rootIndex, root :: roots => do
    let first ← rootBytes rootIndex root
    let rest ← rootsBytes (rootIndex + 1) roots
    pure (first ++ rest)

/-- Everything that is fed to the hash. -/
def packageBytes (roots : List PackageRoot) : Except PyError Bytes := do
  let bytes ← rootsBytes 0 roots
  pure (utf8 "spoolcache:vllm-installed-package:v1" ++ [0] ++ bytes)

/-- `_installed_package_sha256`, `compat.py:380–427`, of files that do not change. -/
def installedPackageSha256 (roots : List PackageRoot) : Except PyError Digest := do
  let bytes ← packageBytes roots
  if (roots.flatMap PackageRoot.files).length = 0 then
    throw (.unsupportedRuntimeError "vLLM package root contains no stable files")
  else pure (sha256 bytes)

/-! ### Files -/

private theorem flatten_readChunks (content : Bytes) : (readChunks content).flatten = content := by
  fun_induction readChunks content with
  | case1 => rfl
  | case2 content h ih => rw [List.flatten_cons, ih, List.take_append_drop]

/-- The record of a file. -/
def fileRecord (file : PackageFile) : Bytes :=
  utf8 file.relativeName ++ 0 :: (beBytes 8 file.content.length ++ file.content)

private theorem fileBytes_eq (file : PackageFile) : fileBytes file = .ok (fileRecord file) := by
  have hsize := file.size_lt
  have hfits : toBytesBig 8 file.content.length = .ok (beBytes 8 file.content.length) :=
    if_pos (by omega)
  unfold fileBytes fileRecord
  rw [hfits, ok_bind, flatten_readChunks, List.append_assoc, List.append_assoc]
  rfl

/-- The record of a file ends where its size says. -/
theorem fileRecord_separated {f g : PackageFile} {x y : Bytes}
    (h : fileRecord f ++ x = fileRecord g ++ y) : f = g ∧ x = y := by
  have hf := f.size_lt
  have hg := g.size_lt
  unfold fileRecord at h
  rw [List.append_assoc, List.append_assoc, List.cons_append, List.cons_append] at h
  obtain ⟨hname, hrest⟩ := terminated_separated f.name_nul g.name_nul h
  rw [List.append_assoc, List.append_assoc] at hrest
  obtain ⟨hsize, hrest⟩ :=
    append_inj_of_length (by rw [length_beBytes, length_beBytes]) hrest
  have hlength : f.content.length = g.content.length := beBytes_inj (by omega) (by omega) hsize
  obtain ⟨hcontent, hxy⟩ := append_inj_of_length hlength hrest
  have hname := utf8_inj hname
  obtain ⟨_, _, _, _, _⟩ := f
  obtain ⟨_, _, _, _, _⟩ := g
  cases hname
  cases hcontent
  exact ⟨rfl, hxy⟩

/-- Where no file begins: at the end, or at a zero byte. -/
def Stops (x : Bytes) : Prop := ∀ b ∈ x.head?, b = 0

private theorem not_stops_fileRecord (f : PackageFile) (x : Bytes) :
    ¬ Stops (fileRecord f ++ x) := by
  intro hstops
  have hne : utf8 f.relativeName ≠ [] := by
    intro hempty
    exact f.name_ne (utf8_inj (hempty.trans (by decide)))
  obtain ⟨b, rest, hname⟩ := List.exists_cons_of_ne_nil hne
  have hzero := hstops b (by unfold fileRecord; rw [hname]; rfl)
  apply f.name_nul
  rw [hname, hzero]
  exact List.mem_cons_self

/-! ### Roots -/

/-- The records of a root and those behind it. -/
def rootsRecord : Nat → List PackageRoot → Bytes
  | _, [] => []
  | rootIndex, root :: roots =>
    beBytes 4 rootIndex ++ (root.files.flatMap fileRecord ++ rootsRecord (rootIndex + 1) roots)

private theorem rootsBytes_eq {rootIndex : Nat} {roots : List PackageRoot}
    (h : rootIndex + roots.length ≤ 2 ^ 24) :
    rootsBytes rootIndex roots = .ok (rootsRecord rootIndex roots) := by
  induction roots generalizing rootIndex with
  | nil => rfl
  | cons root roots ih =>
    rw [List.length_cons] at h
    have hindex : toBytesBig 4 rootIndex = .ok (beBytes 4 rootIndex) := if_pos (by omega)
    have hfiles : root.files.mapM fileBytes = .ok (root.files.map fileRecord) :=
      mapM_eq_ok fun file _ ↦ fileBytes_eq file
    have hroot : rootBytes rootIndex root =
        .ok (beBytes 4 rootIndex ++ root.files.flatMap fileRecord) := by
      unfold rootBytes
      rw [hindex, ok_bind, hfiles]
      rfl
    unfold rootsBytes rootsRecord
    rw [hroot, ok_bind, ih (by omega), ok_bind, List.append_assoc]
    rfl

private theorem stops_rootsRecord {rootIndex : Nat} {roots : List PackageRoot}
    (h : rootIndex + roots.length ≤ 2 ^ 24) : Stops (rootsRecord rootIndex roots) := by
  cases roots with
  | nil =>
    intro b hb
    cases hb
  | cons root roots =>
    rw [List.length_cons] at h
    unfold rootsRecord
    rw [beBytes_succ (by omega)]
    intro b hb
    cases hb
    rfl

private theorem rootsRecord_inj {rootIndex : Nat} {a b : List PackageRoot}
    (ha : rootIndex + a.length ≤ 2 ^ 24) (hb : rootIndex + b.length ≤ 2 ^ 24)
    (h : rootsRecord rootIndex a = rootsRecord rootIndex b) :
    a.map PackageRoot.files = b.map PackageRoot.files := by
  have hne : ∀ (i : Nat) (root : PackageRoot) (roots : List PackageRoot),
      rootsRecord i (root :: roots) ≠ [] := by
    intro i root roots hempty
    have hlength := congrArg List.length hempty
    unfold rootsRecord at hlength
    rw [List.length_append, length_beBytes, List.length_nil] at hlength
    omega
  induction a generalizing rootIndex b with
  | nil =>
    cases b with
    | nil => rfl
    | cons root b => exact absurd h.symm (hne _ _ _)
  | cons root a ih =>
    cases b with
    | nil => exact absurd h (hne _ _ _)
    | cons root' b =>
      rw [List.length_cons] at ha hb
      unfold rootsRecord at h
      obtain ⟨-, h⟩ := append_inj_of_length rfl h
      obtain ⟨hfiles, hrest⟩ := flatMap_append_inj
        (fun f _ g _ x y hfg ↦ fileRecord_separated hfg)
        (fun f _ x ↦ not_stops_fileRecord f x) (fun f _ x ↦ not_stops_fileRecord f x)
        (stops_rootsRecord (by omega)) (stops_rootsRecord (by omega)) h
      rw [List.map_cons, List.map_cons, hfiles, ih (by omega) (by omega) hrest]

/-- Packages of fewer than `2 ^ 24` roots feed the same bytes to the hash exactly when they have
the same roots with the same files. -/
theorem package_fingerprint_unambiguous (a b : List PackageRoot) (ha : a.length < 2 ^ 24)
    (hb : b.length < 2 ^ 24) :
    ∃ x y, packageBytes a = .ok x ∧ packageBytes b = .ok y ∧
      (x = y ↔ a.map PackageRoot.files = b.map PackageRoot.files) := by
  have hbytes : ∀ roots : List PackageRoot, roots.length < 2 ^ 24 → packageBytes roots =
      .ok (utf8 "spoolcache:vllm-installed-package:v1" ++ [0] ++ rootsRecord 0 roots) := by
    intro roots hroots
    unfold packageBytes
    rw [rootsBytes_eq (by omega)]
    rfl
  refine ⟨_, _, hbytes a ha, hbytes b hb, ?_⟩
  constructor
  · intro h
    obtain ⟨-, hroots⟩ := append_inj_of_length rfl h
    exact rootsRecord_inj (by omega) (by omega) hroots
  · intro h
    have hfiles : Function.Injective PackageRoot.files := by
      rintro ⟨files, _⟩ ⟨files', _⟩ heq
      cases heq
      rfl
    rw [List.map_injective_iff.mpr hfiles h]

/-- A root with one file. -/
def samplePackageRoot : PackageRoot where
  files := [⟨"a.py", [0, 0, 0, 1], by decide, by decide +kernel, by decide⟩]
  sorted := List.pairwise_singleton _ _

/-- Content that looks like the index of a second root is not one. -/
theorem package_fingerprint_sampleRoot :
    packageBytes [samplePackageRoot] ≠ packageBytes [samplePackageRoot, ⟨[], List.Pairwise.nil⟩] := by
  obtain ⟨x, y, hx, hy, hiff⟩ := package_fingerprint_unambiguous [samplePackageRoot]
    [samplePackageRoot, ⟨[], List.Pairwise.nil⟩] (by decide) (by decide)
  rw [hx, hy]
  intro h
  have hfiles := congrArg List.length (hiff.mp (Except.ok.inj h))
  cases hfiles

end SpoolCache.Connector
