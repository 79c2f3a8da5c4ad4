import SymbolIndex.Database.Export
import SymbolIndex.Proofs.Erasure
import SymbolIndex.Proofs.Growth

/-!
# Events that change nothing

A declaration that comes once more, as another node of another parse, finds its record and leaves the
database at rest: what is written out stays the same, except that an empty class takes the new origin.
-/

namespace SymbolIndex

/-! ## Databases at rest -/

/-- The record of a class, where an origin counts only once there are members. -/
def Class.unplaced (c : Class) : Class := if c.isEmpty then { c with fromFile := "", includePath := "" } else c

theorem Class.unplaced_fullName (c : Class) : c.unplaced.fullName = c.fullName := by
  unfold unplaced
  split <;> rfl

theorem Class.unplaced_isEmpty (c : Class) : c.unplaced.isEmpty = c.isEmpty := by
  unfold unplaced
  split <;> rfl

theorem Class.unplaced_fields (c : Class) : c.unplaced.fields = c.fields := by
  unfold unplaced
  split <;> rfl

theorem Class.eq_of_unplaced {c c' : Class} (h : c.unplaced = c'.unplaced) (hf : c.fromFile = c'.fromFile)
    (hi : c.includePath = c'.includePath) : c = c' := by
  have he : c.isEmpty = c'.isEmpty := by rw [← c.unplaced_isEmpty, h, c'.unplaced_isEmpty]
  unfold unplaced at h
  rw [← he] at h
  split at h
  · cases c
    cases c'
    simp_all
  · exact h

namespace Database

/-- Two databases that differ only in places, access, and origins of empty classes. -/
structure Rests (b db : Database) : Prop where
  types : db.types = b.types
  functions : db.functions = b.functions
  enums : db.enums = b.enums
  namespaces : db.namespaces.map NamespaceEntry.fullName = b.namespaces.map NamespaceEntry.fullName
  classes : db.classes.map (·.record.unplaced) = b.classes.map (·.record.unplaced)

structure SameRecords (b db : Database) : Prop where
  namespaces : db.namespaces.map NamespaceEntry.fullName = b.namespaces.map NamespaceEntry.fullName
  classes : db.classes.map (·.record) = b.classes.map (·.record)
  enums : db.enums = b.enums
  functions : db.functions = b.functions
  types : db.types = b.types

theorem SameRecords.toJson {b db : Database} (h : b.SameRecords db) : db.toJson = b.toJson := by
  have hclasses : db.classes.map (·.record.toJson) = b.classes.map (·.record.toJson) := by
    have := congrArg (List.map Class.toJson) h.classes
    rw [List.map_map, List.map_map] at this
    exact this
  rw [Database.toJson, Database.toJson, h.namespaces, hclasses, h.enums, h.functions, h.types]

namespace Rests

variable {b db : Database}

theorem refl (b : Database) : b.Rests b := ⟨rfl, rfl, rfl, rfl, rfl⟩

theorem findClass? (h : b.Rests db) (name : String) :
    (db.findClass? name).map (·.record.unplaced) = (b.findClass? name).map (·.record.unplaced) := by
  have key : ∀ d : Database, (d.findClass? name).map (·.record.unplaced) =
      (d.classes.map (·.record.unplaced)).find? (·.fullName == name) := by
    intro d
    rw [Database.findClass?, List.find?_map]
    simp only [Function.comp_def, Class.unplaced_fullName]
    rfl
  rw [key, key, h.classes]

theorem isFull (h : b.Rests db) (name : String) : db.isFull name = b.isFull name := by
  have key : ∀ d : Database, d.isFull name = ((d.findClass? name).map (·.record.unplaced)).any (!·.isEmpty) := by
    intro d
    rw [Database.isFull, digest?]
    cases d.findClass? name with
    | none => rfl
    | some e => simp [ClassEntry.digest_isEmpty, Class.unplaced_isEmpty]
  rw [key, key, h.findClass?]

theorem digest?_isSome (h : b.Rests db) (name : String) : (db.digest? name).isSome = (b.digest? name).isSome := by
  have := congrArg Option.isSome (h.findClass? name)
  simpa [digest?] using this

theorem knowsField (h : b.Rests db) (fullName name : String) : db.knowsField fullName name = b.knowsField fullName name := by
  have key : ∀ d : Database, d.knowsField fullName name =
      ((d.findClass? fullName).map (·.record.unplaced)).any fun c => c.fields.any (·.name == name) := by
    intro d
    rw [Database.knowsField]
    cases d.findClass? fullName with
    | none => rfl
    | some e => simp [Class.unplaced_fields]
  rw [key, key, h.findClass?]

theorem namespaces_any (h : b.Rests db) (name : String) :
    db.namespaces.any (·.fullName == name) = b.namespaces.any (·.fullName == name) := by
  have key : ∀ d : Database, d.namespaces.any (·.fullName == name) =
      (d.namespaces.map NamespaceEntry.fullName).any (· == name) := by
    intro d
    rw [List.any_map]
    rfl
  rw [key, key, h.namespaces]

theorem addNamespace (h : b.Rests db) (name : String) {fullName : String} (place : Place)
    (known : b.namespaces.any (·.fullName == fullName) = true) : b.Rests (db.addNamespace name fullName place) := by
  rw [← h.namespaces_any] at known
  unfold Database.addNamespace
  rw [if_pos known]
  refine { h with namespaces := ?_ }
  rw [← h.namespaces]
  simp only [List.map_map]
  apply List.map_congr_left
  intro e _
  simp only [Function.comp_apply]
  split <;> rfl

theorem updateClass (h : b.Rests db) (fullName : String) {change : ClassEntry → ClassEntry}
    (hc : ∀ e, (change e).record.unplaced = e.record.unplaced) : b.Rests (db.updateClass fullName change) := by
  refine { h with classes := ?_ }
  rw [← h.classes]
  simp only [Database.updateClass, List.map_map]
  apply List.map_congr_left
  intro e _
  simp only [Function.comp_apply]
  split
  · exact hc e
  · rfl

theorem redeclare_unplaced (entry : ClassEntry) (c : Class) (place : Place) (access : Access) :
    (redeclare entry c place access).record.unplaced = entry.record.unplaced := by
  unfold redeclare
  split
  · rename_i he
    have hne : ({ entry.record with fromFile := c.fromFile, includePath := c.includePath } : Class).isEmpty = true := he
    simp only [Class.unplaced]
    rw [if_pos hne, if_pos he]
  · rfl

theorem addClass (h : b.Rests db) {c : Class} (place : Place) (access : Access)
    (known : (b.digest? c.fullName).isSome = true) : b.Rests (db.addClass c place access).db := by
  rw [← h.digest?_isSome, digest?, Option.isSome_map] at known
  obtain ⟨entry, hfind⟩ := Option.isSome_iff_exists.mp known
  unfold Database.addClass
  rw [hfind]
  exact h.updateClass c.fullName fun e => redeclare_unplaced e c place access

theorem sameRecords (h : b.Rests db) (hu : db.UniqueClasses) (hub : b.UniqueClasses)
    (hd : ∀ name, db.digest? name = b.digest? name) : b.SameRecords db := by
  refine ⟨h.namespaces, ?_, h.enums, h.functions, h.types⟩
  -- position by position: the full names agree, so the digests speak of the same class
  have hlen : db.classes.length = b.classes.length := by
    have := congrArg List.length h.classes
    simpa using this
  apply List.ext_getElem
  · simpa using hlen
  · intro i h₁ h₂
    simp only [List.length_map] at h₁ h₂
    simp only [List.getElem_map]
    have hi : (db.classes[i]).record.unplaced = (b.classes[i]).record.unplaced := by
      have : (db.classes.map (·.record.unplaced))[i]? = (b.classes.map (·.record.unplaced))[i]? := by rw [h.classes]
      simpa [h₁, h₂] using this
    have hname : (db.classes[i]).fullName = (b.classes[i]).fullName := by
      have := congrArg Class.fullName hi
      rw [Class.unplaced_fullName, Class.unplaced_fullName] at this
      exact this
    have hdigest := hd (db.classes[i]).fullName
    rw [digest?, hu.findClass? (List.getElem_mem h₁), digest?, hname, hub.findClass? (List.getElem_mem h₂)] at hdigest
    have hsame : (db.classes[i]).digest = (b.classes[i]).digest := by simpa using hdigest
    exact Class.eq_of_unplaced hi (congrArg Digest.fromFile hsame) (congrArg Digest.includePath hsame)

end Rests

end Database

/-! ## The same declaration, met twice -/

/-- One declaration as two walks meet it, under its parent in the first and under that parent's twin in
the second. -/
structure Abreast (U : Site → Prop) (a s : Collector) (decl decl' : Decl) (parent parent' : Site) : Prop where
  first : Situated U a decl parent
  second : Situated U s decl' parent'
  same : decl'.erase = decl.erase
  around : parent'.erase = parent.erase
  base : s.base = a.base
  roots : s.roots = a.roots

namespace Abreast

variable {U : Site → Prop} {a s : Collector} {decl decl' : Decl} {parent parent' : Site}

theorem alike {a' : Collector} (h : Abreast U a s decl decl' parent parent') (ha : a.Alike a') :
    Abreast U a' s decl decl' parent parent' :=
  { h with first := h.first.alike ha, base := h.base.trans ha.base.symm, roots := h.roots.trans ha.roots.symm }

theorem kind (h : Abreast U a s decl decl' parent parent') : decl'.kind = decl.kind := by
  have := congrArg Decl.kind h.same
  exact this

theorem spelling (h : Abreast U a s decl decl' parent parent') : decl'.spelling = decl.spelling := by
  have := congrArg Decl.spelling h.same
  exact this

theorem classKey (h : Abreast U a s decl decl' parent parent') : decl'.classKey = decl.classKey := by
  have := congrArg Decl.classKey h.same
  exact this

theorem fileOf (h : Abreast U a s decl decl' parent parent') : s.fileOf decl' = a.fileOf decl := by
  have hf : decl'.file = decl.file := by
    have := congrArg Decl.file h.same
    exact this
  rw [Collector.fileOf, Collector.fileOf, hf, h.base]

theorem counts (h : Abreast U a s decl decl' parent parent') : s.counts decl' = a.counts decl := by
  rw [Collector.counts, Collector.counts, h.fileOf, Collector.includes, Collector.includes, Collector.rootOf?,
    Collector.rootOf?, h.roots]

theorem fresh (h : Abreast U a s decl decl' parent parent') : Digest.fresh s decl' = Digest.fresh a decl := by
  rw [Digest.fresh, Digest.fresh, h.classKey, h.fileOf, Collector.includePath, Collector.includePath, Collector.rootOf?,
    Collector.rootOf?, h.roots, h.base]

theorem chain_of_erase {x y : Site} (h : y.erase = x.erase) : writtenScope y.chain = writtenScope x.chain := by
  have hc : ∀ z : Site, writtenScope z.chain = writtenScope z.erase.chain := fun z => (writtenScope_erase z.chain).symm
  rw [hc, h, ← hc]

theorem declares_iff (h : Abreast U a s decl decl' parent parent') (name : String) :
    decl'.site.Declares name ↔ decl.site.Declares name := by
  have hs : decl'.site.erase = decl.site.erase := by
    have := congrArg Decl.site h.same
    exact this
  have hk : decl'.site.kind = decl.site.kind := h.kind
  rw [Site.Declares, Site.Declares, chain_of_erase hs, hk]

theorem parent_kind (h : Abreast U a s decl decl' parent parent') : parent'.kind = parent.kind := by
  have := congrArg Site.kind h.around
  exact this

theorem parent_declares_iff (h : Abreast U a s decl decl' parent parent') (name : String) :
    parent'.Declares name ↔ parent.Declares name := by
  rw [Site.Declares, Site.Declares, chain_of_erase h.around, h.parent_kind]

theorem scopeName? (h : Abreast U a s decl decl' parent parent') :
    s.db.scopeName? parent'.chain = a.db.scopeName? parent.chain := by
  rw [h.second.scopeName?, h.first.scopeName?, chain_of_erase h.around]

theorem classAt? (h : Abreast U a s decl decl' parent parent') :
    (s.db.classAt? parent'.place).map ClassEntry.fullName = (a.db.classAt? parent.place).map ClassEntry.fullName := by
  cases ha : a.db.classAt? parent.place with
  | some entry =>
    have hp := (h.parent_declares_iff entry.fullName).mpr (h.first.declares_of_classAt? ha)
    obtain ⟨entry', hat, hname⟩ := h.second.classAt?_of_declares hp
    rw [hat, Option.map_some, Option.map_some, hname]
  | none =>
    cases hs : s.db.classAt? parent'.place with
    | none => rfl
    | some entry' =>
      have hp := (h.parent_declares_iff entry'.fullName).mp (h.second.declares_of_classAt? hs)
      obtain ⟨entry, hat, -⟩ := h.first.classAt?_of_declares hp
      rw [ha] at hat
      cases hat

theorem classContext (h : Abreast U a s decl decl' parent parent') (hua : a.db.UniqueClasses)
    (hus : s.db.UniqueClasses) (hlocked : ∀ name, parent.Declares name → s.db.digest? name = a.db.digest? name) :
    s.classContext parent' = a.classContext parent := by
  have hclass := h.classAt?
  unfold Collector.classContext
  rw [h.parent_kind, h.scopeName?]
  split
  · rfl
  · cases ha : a.db.classAt? parent.place with
    | none =>
      rw [ha, Option.map_none, Option.map_eq_none_iff] at hclass
      rw [hclass]
    | some entry =>
      rw [ha, Option.map_some] at hclass
      obtain ⟨entry', hs, hname⟩ := Option.map_eq_some_iff.mp hclass
      have hdigest := hlocked entry.fullName (h.first.declares_of_classAt? ha)
      rw [Database.digest?, ← hname, hus.findClass? (List.mem_of_find?_eq_some hs), hname, Database.digest?,
        hua.findClass? (List.mem_of_find?_eq_some ha)] at hdigest
      have haccess : entry'.access = entry.access := by
        have hsame : entry'.digest = entry.digest := by simpa using hdigest
        have := congrArg Digest.access hsame
        exact this
      rw [hs]
      simp only [haccess, hname]

end Abreast

end SymbolIndex
