import Jerboa.LinkChains
import Jerboa.OpsExtract

/-!
# Links that are turned into copies

On hosts other than Linux, `Extract` makes no symbolic link: it keeps the links
of the archive and `materializeLinks` copies the files at their targets, pass
after pass, as long as a pass has copied something.
-/

namespace Jerboa.Packages

open Utf8Text PosixFiles LinkChains List

namespace Extractor

variable {disk : Disk} {link : PendingLink} {kept links : List PendingLink} {content : Bytes}

def Plain (disk : Disk) (path : Location) : Prop :=
  (∀ name ∈ path, IsName name) ∧ disk.Linkless path

def linksTo (links : List PendingLink) (path target : Location) : Prop :=
  ⟨path, target⟩ ∈ links

/-- Links with different paths, none of which is a file. -/
structure Pending (disk : Disk) (links : List PendingLink) : Prop where
  distinct : (links.map PendingLink.path).Nodup
  fresh : ∀ link ∈ links, disk.fileAt link.path = none
  plain : ∀ link ∈ links, Plain disk link.path ∧ Plain disk link.resolved

/-! ### Copies that succeed -/

def copySucceeds (disk : Disk) (content : Bytes) (dst : Location) : Bool :=
  (disk.mkdirAll dst.dropLast).2 && ((disk.mkdirAll dst.dropLast).1.writeFile content dst).2

def passSucceeds : Disk → List PendingLink → Bool
  | _, [] => true
  | disk, link :: links =>
    match disk.fileAt link.resolved with
    | some content =>
      copySucceeds disk content link.path &&
        passSucceeds (copyFileContents disk content link.path) links
    | none => passSucceeds disk links

def copiesSucceed : (passes : Nat) → Disk → List PendingLink → Bool
  | 0, _, _ => true
  | passes + 1, disk, links =>
    let pass := materializePass disk links
    passSucceeds disk links &&
      (pass.2.length == links.length || copiesSucceed passes pass.1 pass.2)

section Copy

variable {dst : Location} (isPlain : Plain disk dst) (succeeds : copySucceeds disk content dst = true)

include isPlain succeeds

theorem fileAt_copyFileContents :
    (copyFileContents disk content dst).fileAt =
      Function.update disk.fileAt dst (some content) := by
  obtain ⟨made, wrote⟩ := Bool.and_eq_true_iff.mp succeeds
  have linkless : (disk.mkdirAll dst.dropLast).1.Linkless dst :=
    (Disk.extends_mkdirAll (fun name member => isPlain.1 name (mem_of_mem_dropLast member))
      (isPlain.2.above (List.dropLast_prefix dst))).linkless isPlain.2
  rw [← disk.fileAt_mkdirAll dst.dropLast]
  funext location
  simp only [copyFileContents, made, if_true, Disk.fileAt,
    Disk.nodes_writeFile isPlain.1 linkless wrote, Function.update_apply]
  by_cases same : location = dst
  · simp only [same, if_true]
  · simp only [same, if_false]

theorem Plain.copyFileContents {path : Location} (other : Plain disk path) :
    Plain (copyFileContents disk content dst) path := by
  obtain ⟨made, -⟩ := Bool.and_eq_true_iff.mp succeeds
  have above := Disk.extends_mkdirAll
    (fun name member => isPlain.1 name (mem_of_mem_dropLast member))
    (isPlain.2.above (List.dropLast_prefix dst))
  refine ⟨other.1, ?_⟩
  simp only [Extractor.copyFileContents, made, if_true]
  exact (Disk.extends_writeFile isPlain.1 (above.linkless isPlain.2) content).linkless
    (above.linkless other.2)

end Copy

/-! ### One pass -/

theorem materializePass_of_file (isPlain : Plain disk link.resolved)
    (found : disk.fileAt link.resolved = some content) :
    materializePass disk (link :: links) =
      materializePass (copyFileContents disk content link.path) links := by
  have atTarget := Disk.nodes_of_fileAt found
  simp only [materializePass, Disk.stat_of_file isPlain.1 atTarget, atTarget]

theorem materializePass_of_absent (isPlain : Plain disk link.resolved)
    (absent : disk.fileAt link.resolved = none) :
    materializePass disk (link :: links) =
      ((materializePass disk links).1, link :: (materializePass disk links).2) := by
  have ended := Disk.walk_linkless isPlain.1 isPlain.2 true Disk.maxLinks
  rw [materializePass]
  split
  · rename_i location arrived
    rw [← Disk.stat, arrived] at ended
    obtain rfl : location = link.resolved := ended
    split
    · rename_i found
      simp [Disk.fileAt, found] at absent
    · rfl
  · rfl
  · rfl
  · rfl

theorem length_materializePass_le (disk : Disk) (links : List PendingLink) :
    (materializePass disk links).2.length ≤ links.length := by
  induction links generalizing disk with
  | nil => exact Nat.le_refl 0
  | cons link links ih =>
    rw [materializePass]
    split
    · split
      · exact Nat.le_succ_of_le (ih _)
      · exact Nat.succ_le_succ (ih _)
    all_goals exact Nat.succ_le_succ (ih _)

theorem materializePass_of_stuck (arePlain : ∀ link ∈ links, Plain disk link.resolved)
    (stuck : (materializePass disk links).2.length = links.length) :
    (materializePass disk links).1 = disk ∧ ∀ link ∈ links, disk.fileAt link.resolved = none := by
  induction links with
  | nil => exact ⟨rfl, fun _ member => absurd member not_mem_nil⟩
  | cons link links ih =>
    obtain ⟨isPlain, arePlain⟩ := forall_mem_cons.mp arePlain
    cases found : disk.fileAt link.resolved with
    | some content =>
      have fewer := length_materializePass_le (copyFileContents disk content link.path) links
      rw [materializePass_of_file isPlain found, length_cons] at stuck
      omega
    | none =>
      rw [materializePass_of_absent isPlain found] at stuck ⊢
      obtain ⟨same, absent⟩ := ih arePlain (Nat.succ.inj stuck)
      exact ⟨same, forall_mem_cons.mpr ⟨found, absent⟩⟩

theorem Pending.copy (pending : Pending disk (kept ++ link :: links))
    (found : disk.fileAt link.resolved = some content)
    (succeeds : copySucceeds disk content link.path = true) :
    Pending (copyFileContents disk content link.path) (kept ++ links) ∧
      ∀ path text,
        Leads (copyFileContents disk content link.path).fileAt (linksTo (kept ++ links)) path text ↔
          Leads disk.fileAt (linksTo (kept ++ link :: links)) path text := by
  have distinct := pending.distinct
  rw [map_append, map_cons, nodup_middle, nodup_cons, ← map_append]
    at distinct
  obtain ⟨unique, distinct⟩ := distinct
  have isMember : ∀ other, other ∈ kept ++ link :: links ↔ other = link ∨ other ∈ kept ++ links :=
    fun other => perm_middle.mem_iff.trans mem_cons
  have others : ∀ other ∈ kept ++ links, other.path ≠ link.path := by
    intro other member same
    exact unique (same ▸ mem_map_of_mem member)
  have isPlain := (pending.plain link ((isMember link).mpr (.inl rfl))).1
  rw [fileAt_copyFileContents isPlain succeeds]
  constructor
  · constructor
    · exact distinct
    · intro other member
      rw [fileAt_copyFileContents isPlain succeeds, Function.update_of_ne (others other member)]
      exact pending.fresh other ((isMember other).mpr (.inr member))
    · intro other member
      obtain ⟨first, second⟩ := pending.plain other ((isMember other).mpr (.inr member))
      exact ⟨isPlain.copyFileContents succeeds first, isPlain.copyFileContents succeeds second⟩
  · intro path text
    apply leads_copy ?_ ?_ ?_ found
    · intro target
      constructor
      · intro linked
        cases (isMember _).mp linked with
        | inl same => rw [← same]
        | inr other => exact absurd rfl (others ⟨link.path, target⟩ other)
      · rintro rfl
        exact (isMember _).mpr (.inl rfl)
    · intro other target
      constructor
      · intro linked
        exact ⟨(isMember _).mpr (.inr linked), others _ linked⟩
      · rintro ⟨linked, different⟩
        refine ((isMember _).mp linked).resolve_left ?_
        rintro rfl
        exact different rfl
    · intro other target linked
      exact pending.fresh _ linked

theorem Pending.pass (pending : Pending disk (kept ++ links))
    (succeeds : passSucceeds disk links = true) :
    Pending (materializePass disk links).1 (kept ++ (materializePass disk links).2) ∧
      ∀ path text,
        Leads (materializePass disk links).1.fileAt
            (linksTo (kept ++ (materializePass disk links).2)) path text ↔
          Leads disk.fileAt (linksTo (kept ++ links)) path text := by
  induction links generalizing disk kept with
  | nil => exact ⟨pending, fun _ _ => Iff.rfl⟩
  | cons link links ih =>
    have isPlain := (pending.plain link (by simp)).2
    cases found : disk.fileAt link.resolved with
    | some content =>
      simp only [passSucceeds, found, Bool.and_eq_true] at succeeds
      obtain ⟨copied, same⟩ := pending.copy found succeeds.1
      obtain ⟨after, further⟩ := ih copied succeeds.2
      rw [materializePass_of_file isPlain found]
      exact ⟨after, fun path text => (further path text).trans (same path text)⟩
    | none =>
      simp only [passSucceeds, found] at succeeds
      rw [materializePass_of_absent isPlain found]
      simpa only [append_assoc, singleton_append] using
        @ih disk (kept ++ [link]) (by simpa using pending) succeeds

/-! ### All passes -/

theorem materializeLinks_add {passes : Nat} (enough : links.length ≤ passes) (more : Nat) :
    materializeLinks (passes + more) disk links = materializeLinks passes disk links := by
  induction passes generalizing disk links with
  | zero =>
    obtain rfl := eq_nil_of_length_eq_zero (Nat.le_zero.mp enough)
    cases more <;> rfl
  | succ passes ih =>
    have fewer := length_materializePass_le disk links
    rw [Nat.succ_add, materializeLinks, materializeLinks]
    split
    · rfl
    · exact ih (by omega)

theorem Pending.materializeLinks {passes : Nat} (pending : Pending disk links)
    (enough : links.length ≤ passes) (succeeds : copiesSucceed passes disk links = true)
    (path : Location) (text : Bytes) :
    (materializeLinks passes disk links).fileAt path = some text ↔
      Leads disk.fileAt (linksTo links) path text := by
  induction passes generalizing disk links with
  | zero =>
    obtain rfl := eq_nil_of_length_eq_zero (Nat.le_zero.mp enough)
    exact (leads_of_stuck fun _ _ member => absurd member not_mem_nil).symm
  | succ passes ih =>
    simp only [copiesSucceed, Bool.and_eq_true, Bool.or_eq_true, beq_iff_eq] at succeeds
    obtain ⟨passed, goesOn⟩ := succeeds
    obtain ⟨after, same⟩ := @Pending.pass disk [] links pending passed
    rw [nil_append] at after
    have fewer := length_materializePass_le disk links
    simp only [Extractor.materializeLinks]
    split
    · rename_i stuck
      obtain ⟨unchanged, absent⟩ :=
        materializePass_of_stuck (fun link member => (pending.plain link member).2) stuck
      rw [unchanged]
      exact (leads_of_stuck fun path target member => absent ⟨path, target⟩ member).symm
    · rename_i progressed
      rw [ih after (by omega) (goesOn.resolve_left progressed)]
      exact same path text

/-- For pending links with different paths, whose copies succeed, the loop ends
within as many passes as there are links, and afterwards a path is a file
exactly if it was one or its chain of links ends at one, with the same content.
So a link whose chain does not end at a file is left out, and the order of the
links does not matter. -/
theorem links_materialized (disk : Disk) (links : List PendingLink)
    (distinct : (links.map PendingLink.path).Nodup)
    (fresh : ∀ link ∈ links, disk.fileAt link.path = none)
    (plain : ∀ link ∈ links, Plain disk link.path ∧ Plain disk link.resolved)
    (succeeds : copiesSucceed links.length disk links = true) :
    (∀ more, materializeLinks (links.length + more) disk links =
      materializeLinks links.length disk links) ∧
    (∀ path content, (materializeLinks links.length disk links).fileAt path = some content ↔
      Leads disk.fileAt (linksTo links) path content) ∧
    ∀ order, order.Perm links → copiesSucceed order.length disk order = true →
      (materializeLinks order.length disk order).fileAt =
        (materializeLinks links.length disk links).fileAt := by
  have pending : Pending disk links := ⟨distinct, fresh, plain⟩
  have final := pending.materializeLinks (Nat.le_refl _) succeeds
  refine ⟨materializeLinks_add (Nat.le_refl _), final, ?_⟩
  intro order isPerm orderSucceeds
  have reordered : Pending disk order :=
    ⟨(isPerm.map PendingLink.path).nodup_iff.mpr distinct,
      fun link member => fresh link (isPerm.mem_iff.mp member),
      fun link member => plain link (isPerm.mem_iff.mp member)⟩
  have sameLinks : linksTo order = linksTo links := by
    funext path target
    exact propext isPerm.mem_iff
  funext path
  apply Option.ext
  intro content
  rw [reordered.materializeLinks (Nat.le_refl _) orderSucceeds, final, sameLinks]

/-- The file `f` and the links `b → a`, `a → f` and `c → c` beside it. -/
theorem links_materialized_chain :
    (materializeLinks 3 ((Disk.ofDirectories []).writeFile [0x68] [[0x66]]).1
      [⟨[[0x62]], [[0x61]]⟩, ⟨[[0x61]], [[0x66]]⟩, ⟨[[0x63]], [[0x63]]⟩]).fileAt [[0x62]] =
        some [0x68] := by
  have empty : ∀ path, (Disk.ofDirectories []).Linkless path :=
    fun _ above _ => Disk.isLink_ofDirectories [] above
  have plain : ∀ name ∈ [[0x61], [0x62], [0x63], [0x66]],
      Plain ((Disk.ofDirectories []).writeFile [0x68] [[0x66]]).1 [name] := by
    intro name member
    refine ⟨?_, (Disk.extends_writeFile (by simp [IsName, dot, dotDot]) (empty _) _).linkless (empty _)⟩
    revert name
    simp [IsName, dot, dotDot]
  have final := links_materialized ((Disk.ofDirectories []).writeFile [0x68] [[0x66]]).1
    [⟨[[0x62]], [[0x61]]⟩, ⟨[[0x61]], [[0x66]]⟩, ⟨[[0x63]], [[0x63]]⟩]
    (by decide) (by decide) (by simp [plain]) (by decide +kernel)
  apply (final.2.1 [[0x62]] [0x68]).mpr
  have found : ((Disk.ofDirectories []).writeFile [0x68] [[0x66]]).1.fileAt [[0x66]] =
      some [0x68] := by
    decide
  exact .link mem_cons_self (.link (mem_cons_of_mem _ mem_cons_self) (.file found))

end Extractor

end Jerboa.Packages
