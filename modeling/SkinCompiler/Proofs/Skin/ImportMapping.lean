import SkinCompiler.Proofs.Table
import SkinCompiler.Proofs.Text.Basic
import SkinCompiler.Skin.ImportMapping

/-!
# The order of package mappings

A module that has no entry of its own goes with the first package that it lies in.  The order of the
packages therefore matters for a module that lies in two packages with targets that do not agree,
and for no other one.

* `mapPackage_eq` -- a module is looked up itself, then among the packages that it lies in;
* `mapPackage_perm_iff` -- the modules that every order of the packages sends to the same place;
* `ImportMapping.imports_perm_iff` -- the imports that come out the same in every order;
* `isUnambiguous_of_apart` -- packages of which none lies in another one.
-/

namespace SkinCompiler.Skin

open Source

variable {packages packages' : Table Text} {p q : Text × Text} {source : Text}

/-! ## Packages -/

/-- The module stands in the package, behind its name and a slash. -/
def liesIn (source : Text) (p : Text × Text) : Bool := Text.startsWith source (p.1 ++ ['/'])

/-- The module with the target of a package in the place of its name. -/
def retarget (source : Text) (p : Text × Text) : Text := p.2 ++ source.drop p.1.length

/-- The module has an entry of its own, or all packages that it lies in send it to one place. -/
def IsUnambiguous (packages : Table Text) (source : Text) : Prop :=
  Table.get? source packages = none → ∀ p ∈ packages, ∀ q ∈ packages,
    liesIn source p = true → liesIn source q = true → retarget source p = retarget source q

instance decidableIsUnambiguous (packages : Table Text) (source : Text) :
    Decidable (IsUnambiguous packages source) :=
  inferInstanceAs (Decidable (_ → ∀ p ∈ packages, ∀ q ∈ packages, _ → _ → _))

theorem mapPackage_eq (packages : Table Text) (source : Text) : mapPackage packages source
    = (Table.get? source packages).getD
        (((packages.find? (liesIn source)).map (retarget source)).getD source) := by
  rw [mapPackage]
  cases Table.get? source packages with
  | some target => rfl
  | none =>
    dsimp only
    split
    · rename_i package target hfind
      have hlies : packages.find? (liesIn source) = some (package, target) := hfind
      rw [hlies]
      rfl
    · rename_i hfind
      have hlies : packages.find? (liesIn source) = none := hfind
      rw [hlies]
      rfl

/-- A module without an entry goes with the first package that it lies in. -/
theorem mapPackage_cons (hp : liesIn source p = true)
    (hnone : Table.get? source (p :: packages) = none) :
    mapPackage (p :: packages) source = retarget source p := by
  rw [mapPackage_eq, hnone, List.find?_cons_of_pos hp]
  rfl

/-! ## Every order -/

/-- No order of the packages matters for a module that is unambiguous. -/
theorem IsUnambiguous.mapPackage_perm (h : IsUnambiguous packages source)
    (hn : packages.keys.Nodup) (hperm : packages'.Perm packages) :
    mapPackage packages' source = mapPackage packages source := by
  rw [mapPackage_eq, mapPackage_eq, Table.get?_perm hperm hn]
  cases hget : Table.get? source packages with
  | some target => rfl
  | none =>
    have hnone : packages'.find? (liesIn source) = none
        ↔ packages.find? (liesIn source) = none := by
      simp only [List.find?_eq_none, hperm.mem_iff]
    cases hp : packages.find? (liesIn source) with
    | none => rw [hnone.2 hp]
    | some p =>
      cases hq : packages'.find? (liesIn source) with
      | none => simp [hnone.1 hq] at hp
      | some q =>
        -- both orders stop at a package that the module lies in
        have hsame := h hget q (hperm.mem_iff.1 (List.mem_of_find?_eq_some hq)) p
          (List.mem_of_find?_eq_some hp) (List.find?_some hq) (List.find?_some hp)
        simpa using hsame

/-- Any package can be listed first. -/
theorem exists_perm_cons (hp : p ∈ packages) : ∃ rest, (p :: rest).Perm packages := by
  obtain ⟨before, after, rfl⟩ := List.append_of_mem hp
  exact ⟨before ++ after, List.perm_middle.symm⟩

/-- Where every order sends the module to the same place, so do the packages that it lies in. -/
theorem isUnambiguous_of_perm (hn : packages.keys.Nodup)
    (h : ∀ packages' : Table Text, packages'.Perm packages →
      mapPackage packages' source = mapPackage packages source) :
    IsUnambiguous packages source := by
  intro hnone
  have hfirst : ∀ p ∈ packages, liesIn source p = true →
      retarget source p = mapPackage packages source := by
    intro p hp hlies
    obtain ⟨rest, hperm⟩ := exists_perm_cons hp
    rw [← h _ hperm, mapPackage_cons hlies]
    rw [Table.get?_perm hperm hn, hnone]
  intro p hp q hq hlies hlies'
  rw [hfirst p hp hlies, hfirst q hq hlies']

theorem mapPackage_perm_iff (hn : packages.keys.Nodup) :
    (∀ packages' : Table Text, packages'.Perm packages →
      mapPackage packages' source = mapPackage packages source)
      ↔ IsUnambiguous packages source :=
  ⟨isUnambiguous_of_perm hn, fun h _ hperm => h.mapPackage_perm hn hperm⟩

/-- The imports come out the same whatever the order of the packages, just if every module that is
looked up among them is unambiguous. -/
theorem ImportMapping.imports_perm_iff (m : ImportMapping) (is : List Import)
    (hn : m.packages.keys.Nodup) :
    (∀ packages : Table Text, packages.Perm m.packages →
      { m with packages }.imports is = m.imports is) ↔
      ∀ i ∈ is, m.looksUp i = true → IsUnambiguous m.packages i.source := by
  have hsame : ∀ packages : Table Text, { m with packages }.imports is = m.imports is ↔
      ∀ i ∈ is, m.looksUp i = true →
        mapPackage packages i.source = mapPackage m.packages i.source := by
    intro packages
    rw [imports, imports]
    show (is.filter m.keeps).map _ = _ ↔ _
    rw [List.map_inj_left]
    simp only [List.mem_filter, looksUp, Bool.and_eq_true, bne_iff_ne, and_imp]
    refine forall₂_congr fun i _ => forall_congr' fun _ => ?_
    by_cases hpoint : i.source.head? = some '.'
    · simp [mapped, hpoint]
    · simp [mapped, hpoint]
  simp only [hsame]
  constructor
  · intro h i hi hlooks
    exact (mapPackage_perm_iff hn).1 fun packages hperm => h packages hperm i hi hlooks
  · intro h packages hperm i hi hlooks
    exact (mapPackage_perm_iff hn).2 (h i hi hlooks) packages hperm

/-- Packages of which one lies in another one with a target of its own. -/
def nestedPackages : Table Text := [("@ui/icons", "@icons"), ("@ui", "@html")]

/-- A module of the outer package, and an entry for a module of the inner one. -/
theorem ImportMapping.imports_perm_outerPackage : nestedPackages.keys.Nodup ∧
    ∀ packages : Table Text, packages.Perm nestedPackages →
      ({ packages } : ImportMapping).imports [{ source := "@ui/slider" }, { source := "@ui/icons" }]
        = ({ packages := nestedPackages } : ImportMapping).imports
            [{ source := "@ui/slider" }, { source := "@ui/icons" }] := by
  have hn : nestedPackages.keys.Nodup := by decide
  have hunambiguous : ∀ i ∈ [({ source := "@ui/slider" } : Import), { source := "@ui/icons" }],
      IsUnambiguous nestedPackages i.source := by
    decide
  exact ⟨hn, (imports_perm_iff { packages := nestedPackages } _ hn).2
    fun i hi _ => hunambiguous i hi⟩

/-- A module of the inner package goes with whichever package is listed first. -/
theorem ImportMapping.imports_innerPackage :
    ∃ packages : Table Text, packages.Perm nestedPackages ∧
      ({ packages := nestedPackages } : ImportMapping).imports [{ source := "@ui/icons/play" }]
        = [{ source := "@icons/play" }] ∧
      ({ packages } : ImportMapping).imports [{ source := "@ui/icons/play" }]
        = [{ source := "@html/icons/play" }] :=
  ⟨nestedPackages.reverse, List.reverse_perm _, by decide, by decide⟩

/-! ## Packages apart -/

/-- No package lies in another one. -/
def AreApart (packages : Table Text) : Prop :=
  ∀ p ∈ packages, ∀ q ∈ packages, liesIn q.1 p = false

instance decidableAreApart (packages : Table Text) : Decidable (AreApart packages) :=
  inferInstanceAs (Decidable (∀ p ∈ packages, ∀ q ∈ packages, _))

/-- Of two packages that a module lies in, one lies in the other unless they have one name. -/
theorem eq_of_liesIn (hp : liesIn source p = true) (hq : liesIn source q = true)
    (hqp : liesIn q.1 p = false) (hpq : liesIn p.1 q = false) : p.1 = q.1 := by
  obtain ⟨a, ha⟩ := Text.startsWith_iff.1 hp
  obtain ⟨b, hb⟩ := Text.startsWith_iff.1 hq
  rw [List.append_assoc, List.singleton_append] at ha hb
  rcases Text.append_cons_cases (ha.symm.trans hb) with ⟨h, -⟩ | ⟨c, h, -⟩ | ⟨c, h, -⟩
  · exact h
  · have hlies : liesIn q.1 p = true := Text.startsWith_iff.2 ⟨c, by simp [h]⟩
    rw [hlies] at hqp
    cases hqp
  · have hlies : liesIn p.1 q = true := Text.startsWith_iff.2 ⟨c, by simp [h]⟩
    rw [hlies] at hpq
    cases hpq

/-- Among packages apart every module is unambiguous. -/
theorem isUnambiguous_of_apart (hn : packages.keys.Nodup) (h : AreApart packages)
    (source : Text) : IsUnambiguous packages source := by
  intro _ p hp q hq hlies hlies'
  have hkey := eq_of_liesIn hlies hlies' (h p hp q hq) (h q hq p hp)
  have htarget : some p.2 = some q.2 := by
    rw [← Table.get?_of_mem hn hp, ← Table.get?_of_mem hn hq, hkey]
  rw [retarget, retarget, hkey, Option.some.inj htarget]

/-- Names that only begin alike are apart. -/
example (source : Text) : IsUnambiguous [("@ui", "@html"), ("@ui-kit", "@kit")] source :=
  isUnambiguous_of_apart (by decide) (by decide) source

end SkinCompiler.Skin
