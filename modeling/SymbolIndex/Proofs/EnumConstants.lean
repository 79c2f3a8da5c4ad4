import Mathlib.Data.List.Induction
import SymbolIndex.Proofs.BrokenTypes
import SymbolIndex.Proofs.Ledger
import SymbolIndex.Proofs.Traversal

/-!
# Constants of enums

An enum is filed by the first declaration of its full name and takes the constants that stand right below that
declaration. A declaration that comes again puts the same constants once more, which changes nothing.
-/

namespace SymbolIndex

/-! ## Tables of constants -/

def putConstants (table pairs : List (String × Int)) : List (String × Int) :=
  pairs.foldl (fun table pair => putConstant pair.1 pair.2 table) table

theorem putConstants_concat (table pairs : List (String × Int)) (pair : String × Int) :
    putConstants table (pairs ++ [pair]) = putConstant pair.1 pair.2 (putConstants table pairs) := by
  simp [putConstants]

theorem map_fst_putConstants (pairs : List (String × Int)) :
    (putConstants [] pairs).map Prod.fst = (pairs.map Prod.fst).eraseDups := by
  induction pairs using List.reverseRecOn with
  | nil => rfl
  | append_singleton pairs pair ih =>
    rw [putConstants_concat, map_fst_putConstant, ih, List.map_append, List.map_singleton, List.eraseDups_append]
    by_cases h : pair.1 ∈ pairs.map Prod.fst
    · simp [List.mem_eraseDups, h, List.removeAll]
    · simp [List.mem_eraseDups, h, List.removeAll, List.eraseDups_cons]

theorem lookup_putConstants (pairs : List (String × Int)) (name : String) :
    (putConstants [] pairs).lookup name = pairs.reverse.lookup name := by
  induction pairs using List.reverseRecOn with
  | nil => rfl
  | append_singleton pairs pair ih =>
    rw [putConstants_concat, lookup_putConstant, ih, List.reverse_append, List.reverse_singleton, List.singleton_append,
      List.lookup_cons]
    by_cases h : name = pair.1
    · simp [h]
    · simp [h, beq_eq_false_iff_ne.mpr h]

theorem mem_of_mem_putConstant {name : String} {value : Int} {pair : String × Int} :
    ∀ {table : List (String × Int)}, pair ∈ putConstant name value table → pair = (name, value) ∨ pair ∈ table
  | [], h => Or.inl (List.mem_singleton.mp h)
  | entry :: rest, h => by
    unfold putConstant at h
    split at h
    · rcases List.mem_cons.mp h with h | h
      · exact Or.inl h
      · exact Or.inr (List.mem_cons_of_mem _ h)
    · rcases List.mem_cons.mp h with h | h
      · exact Or.inr (h ▸ List.mem_cons_self ..)
      · exact (mem_of_mem_putConstant h).imp_right (List.mem_cons_of_mem _)

theorem mem_of_mem_putConstants {pairs : List (String × Int)} :
    ∀ pair ∈ putConstants [] pairs, pair ∈ pairs := by
  induction pairs using List.reverseRecOn with
  | nil => exact fun _ h => h
  | append_singleton pairs last ih =>
    intro pair h
    rw [putConstants_concat] at h
    rcases mem_of_mem_putConstant h with rfl | h
    · simp
    · exact List.mem_append_left _ (ih pair h)

theorem putConstants_replicate (pairs : List (String × Int)) (k : Nat) :
    (putConstants [] (List.replicate (k + 1) pairs).flatten).map Prod.fst = (pairs.map Prod.fst).eraseDups ∧
      ∀ name, (putConstants [] (List.replicate (k + 1) pairs).flatten).lookup name = pairs.reverse.lookup name := by
  induction k with
  | zero => simp [map_fst_putConstants, lookup_putConstants]
  | succ k ih =>
    simp only [map_fst_putConstants, lookup_putConstants] at ih ⊢
    obtain ⟨hnames, hvalues⟩ := ih
    rw [List.replicate_succ, List.flatten_cons]
    constructor
    · rw [List.map_append, List.eraseDups_append]
      have hnone : ((List.replicate (k + 1) pairs).flatten.map Prod.fst).removeAll (pairs.map Prod.fst) = [] := by
        rw [List.removeAll, List.filter_eq_nil_iff]
        intro name hname
        obtain ⟨pair, hpair, rfl⟩ := List.mem_map.mp hname
        obtain ⟨copy, hcopy, hpair⟩ := List.mem_flatten.mp hpair
        rw [List.eq_of_mem_replicate hcopy] at hpair
        simpa using ⟨pair.2, hpair⟩
      rw [hnone]
      simp
    · intro name
      rw [List.reverse_append, List.lookup_append, hvalues]
      exact Option.or_self

namespace EnumEntry

def putAll (entry : EnumEntry) (pairs : List (String × Int)) : EnumEntry :=
  { entry with record := { entry.record with constants := putConstants entry.record.constants pairs } }

end EnumEntry

theorem Database.getElem?_addConstantTo (place : Place) (name : String) (value : Int) :
    ∀ (entries : List EnumEntry) (i : Nat),
    (addConstantTo place name value entries)[i]? = entries[i]?.map fun entry =>
      if place.same entry.place && !((entries.map EnumEntry.place).take i).any (place.same ·) then
        entry.putAll [(name, value)]
      else entry
  | [], i => by simp [addConstantTo]
  | entry :: rest, i => by
    unfold addConstantTo
    by_cases hd : entry.declaredAt place = true
    · have hsame : place.same entry.place = true := hd
      rw [if_pos hd]
      cases i with
      | zero => simp [hsame, EnumEntry.putAll, putConstants]
      | succ i => simp [hsame]
    · have hsame : place.same entry.place = false := by simpa [EnumEntry.declaredAt] using hd
      rw [if_neg hd]
      cases i with
      | zero => simp [hsame]
      | succ i => simp [hsame, getElem?_addConstantTo place name value rest i]

/-! ## What an event does to the enums -/

def Database.enumNames (db : Database) : List String := db.enums.map EnumEntry.fullName

theorem Collector.Writes.enums {c : Collector} {decl : Decl} {parent : Site} {db : Database}
    (h : c.Writes decl parent db) (henum : decl.kind ≠ .enumDecl) (hconstant : decl.kind ≠ .enumConstant) :
    db.enums = c.db.enums := by
  cases h with
  | nothing => rfl
  | ofNamespace =>
    unfold Database.addNamespace
    split <;> rfl
  | ofClass =>
    unfold Database.addClass
    split <;> rfl
  | ofEnum kind => exact absurd kind henum
  | ofConstant kind => exact absurd kind hconstant
  | ofAlias =>
    unfold Database.addType
    split <;> rfl
  | ofFunction =>
    unfold Database.addFunction
    split <;> rfl
  | ofMember => rfl

namespace Moment

def isConstant (m : Moment) : Bool := m.before.counts m.decl && m.decl.kind == .enumConstant

structure FilesEnum (m : Moment) (fullName : String) : Prop where
  kind : m.decl.kind = .enumDecl
  counted : m.before.counts m.decl = true
  named : isUnnamed m.decl.spelling = false
  filed : m.before.namespaceName m.decl m.parent.site = fullName

def enumEntry (m : Moment) : EnumEntry := ⟨m.before.enumRecord m.decl m.parent.site, m.decl.place⟩

theorem FilesEnum.not_constant {m : Moment} {fullName : String} (h : m.FilesEnum fullName) : m.isConstant = false := by
  simp [isConstant, h.kind]

theorem FilesEnum.outcome_eq {m : Moment} {fullName : String} (h : m.FilesEnum fullName) :
    m.outcome = m.before.closeTemplates.answer
      (m.before.db.addEnum (m.before.enumRecord m.decl m.parent.site) m.decl.place) .enter [] := by
  have huntaken : Collector.takes m.decl.kind = none := by rw [h.kind]; rfl
  rw [outcome, Collector.visit_of_untaken h.counted huntaken]
  simp only [Collector.visitDecl, h.kind]
  rw [Collector.visitEnum, h.named]
  rfl

theorem enums_of_constant {m : Moment} (h : m.isConstant = true) :
    m.after.db.enums = Database.addConstantTo m.parent.place m.decl.spelling m.decl.value m.before.db.enums := by
  obtain ⟨hcounted, hkind⟩ := Bool.and_eq_true_iff.mp h
  have hkind : m.decl.kind = .enumConstant := eq_of_beq hkind
  have huntaken : Collector.takes m.decl.kind = none := by rw [hkind]; rfl
  rw [after, outcome, Collector.visit_of_untaken hcounted huntaken]
  simp only [Collector.visitDecl, hkind]
  rfl

theorem enums_of_other {m : Moment} (hconstant : m.isConstant = false) (hfiles : ∀ fullName, ¬ m.FilesEnum fullName) :
    m.after.db.enums = m.before.db.enums := by
  by_cases hcounted : m.before.counts m.decl = true
  · have hkind : m.decl.kind ≠ .enumConstant := by simpa [isConstant, hcounted] using hconstant
    by_cases henum : m.decl.kind = .enumDecl
    · -- an enum without a name is passed over
      have hunnamed : isUnnamed m.decl.spelling = true := by
        by_contra hnamed
        exact hfiles _ ⟨henum, hcounted, by simpa using hnamed, rfl⟩
      have huntaken : Collector.takes m.decl.kind = none := by rw [henum]; rfl
      rw [after, outcome, Collector.visit_of_untaken hcounted huntaken]
      simp only [Collector.visitDecl, henum]
      rw [Collector.visitEnum, hunnamed]
      rfl
    · rcases m.before.visit_writes m.decl m.parent.site with hsame | hwrites
      · exact congrArg Database.enums hsame
      · have ho := (m.before.offered_alike m.decl m.parent.site).outline
        exact (hwrites.enums henum hkind).trans (Database.enums_of_outline ho)
  · have hpassed : m.outcome = m.before.answer m.before.db .pass [] := if_neg hcounted
    rw [after, hpassed]
    rfl

/-- An event puts a constant, adds an enum whose full name is new, or leaves the enums as they are. -/
theorem enums_step (m : Moment) :
    (m.isConstant = true ∧ m.after.db.enums =
        Database.addConstantTo m.parent.place m.decl.spelling m.decl.value m.before.db.enums) ∨
      (∃ fullName, m.FilesEnum fullName ∧ fullName ∉ m.before.db.enumNames ∧
        m.after.db.enums = m.before.db.enums ++ [m.enumEntry]) ∨
      (m.isConstant = false ∧ m.after.db.enums = m.before.db.enums ∧
        ∀ fullName, m.FilesEnum fullName → fullName ∈ m.before.db.enumNames) := by
  by_cases hconstant : m.isConstant = true
  · exact Or.inl ⟨hconstant, enums_of_constant hconstant⟩
  right
  have hconstant : m.isConstant = false := by simpa using hconstant
  by_cases hfiles : ∃ fullName, m.FilesEnum fullName
  · obtain ⟨fullName, hfiles⟩ := hfiles
    have hafter : m.after.db = m.before.db.addEnum (m.before.enumRecord m.decl m.parent.site) m.decl.place := by
      rw [after, hfiles.outcome_eq]
      rfl
    have hname : (m.before.enumRecord m.decl m.parent.site).fullName = fullName := hfiles.filed
    by_cases hknown : fullName ∈ m.before.db.enumNames
    · refine Or.inr ⟨hconstant, ?_, fun name h => h.filed ▸ hfiles.filed ▸ hknown⟩
      rw [hafter, Database.addEnum, hname, if_pos (by simpa [Database.enumNames] using hknown)]
    · refine Or.inl ⟨fullName, hfiles, hknown, ?_⟩
      rw [hafter, Database.addEnum, hname, if_neg (by simpa [Database.enumNames] using hknown)]
      rfl
  · exact Or.inr ⟨hconstant, enums_of_other hconstant fun name h => hfiles ⟨name, h⟩,
      fun name h => absurd ⟨name, h⟩ hfiles⟩

end Moment

/-! ## Constants along a history -/

/-- The constants that events put to an enum at a place, where the enums before it stand at the older places. -/
def received (older : List Place) (place : Place) (ms : List Moment) : List (String × Int) :=
  (ms.filter fun m => m.isConstant && (m.parent.place.same place && !older.any (m.parent.place.same ·))).map
    fun m => (m.decl.spelling, m.decl.value)

theorem EnumEntry.putAll_putAll (entry : EnumEntry) (pairs pairs' : List (String × Int)) :
    (entry.putAll pairs).putAll pairs' = entry.putAll (pairs ++ pairs') := by
  simp [putAll, putConstants]

theorem Database.places_addConstantTo (place : Place) (name : String) (value : Int) (entries : List EnumEntry) :
    (addConstantTo place name value entries).map EnumEntry.place = entries.map EnumEntry.place :=
  addConstantTo_map (fun _ _ => rfl) place name value entries

theorem Chained.enum {db db₁ : Database} {ms : List Moment} (h : Chained db ms db₁) {i : Nat} :
    ∀ {entry : EnumEntry}, db.enums[i]? = some entry →
      db₁.enums[i]? = some (entry.putAll (received ((db.enums.map EnumEntry.place).take i) entry.place ms)) := by
  induction h with
  | nil => exact fun hentry => hentry
  | @cons m ms db₁ further ih =>
    intro entry hentry
    rcases m.enums_step with ⟨hconstant, hafter⟩ | ⟨fullName, hfiles, -, hafter⟩ | ⟨hconstant, hafter, -⟩
    · have hput := Database.getElem?_addConstantTo m.parent.place m.decl.spelling m.decl.value m.before.db.enums i
      rw [← hafter, hentry, Option.map_some] at hput
      rw [ih hput, hafter, Database.places_addConstantTo]
      by_cases htakes : (m.parent.place.same entry.place &&
          !((m.before.db.enums.map EnumEntry.place).take i).any (m.parent.place.same ·)) = true
      · rw [if_pos htakes, EnumEntry.putAll_putAll]
        simp only [received, List.filter_cons, hconstant, htakes, Bool.and_self, if_true, List.map_cons]
        rfl
      · rw [if_neg htakes]
        simp only [received, List.filter_cons, hconstant, Bool.true_and, htakes]
        rfl
    · have hi : i < m.before.db.enums.length := (List.getElem?_eq_some_iff.mp hentry).1
      rw [← List.getElem?_append_left hi, ← hafter] at hentry
      rw [ih hentry, hafter, List.map_append, List.take_append_of_le_length (by simpa using Nat.le_of_lt hi)]
      simp [received, hfiles.not_constant]
    · rw [← hafter] at hentry
      rw [ih hentry, hafter]
      simp [received, hconstant]

/-! ## The declaration that files an enum -/

namespace Moment

structure AddsEnum (m : Moment) (fullName : String) : Prop where
  files : m.FilesEnum fullName
  fresh : fullName ∉ m.before.db.enumNames
  added : m.after.db.enums = m.before.db.enums ++ [m.enumEntry]

theorem enumNames_step (m : Moment) :
    m.after.db.enumNames = m.before.db.enumNames ∨
      ∃ fullName, m.AddsEnum fullName ∧ m.after.db.enumNames = m.before.db.enumNames ++ [fullName] := by
  unfold Database.enumNames
  rcases m.enums_step with ⟨-, hafter⟩ | ⟨fullName, hfiles, hfresh, hafter⟩ | ⟨-, hafter, -⟩
  · rw [hafter]
    exact Or.inl (Database.addConstantTo_map (fun _ _ => rfl) _ _ _ _)
  · refine Or.inr ⟨fullName, ⟨hfiles, hfresh, hafter⟩, ?_⟩
    rw [hafter, List.map_append, List.map_singleton]
    exact congrArg (_ ++ [·]) hfiles.filed
  · exact Or.inl (congrArg _ hafter)

theorem FilesEnum.known {m : Moment} {fullName : String} (h : m.FilesEnum fullName) :
    fullName ∈ m.after.db.enumNames := by
  rcases m.enums_step with ⟨hconstant, -⟩ | ⟨name, -, -, hafter⟩ | ⟨-, hafter, hknown⟩
  · rw [h.not_constant] at hconstant
    cases hconstant
  · rw [Database.enumNames, hafter, List.map_append]
    exact List.mem_append_right _ (List.mem_singleton.mpr h.filed.symm)
  · rw [Database.enumNames, hafter]
    exact hknown fullName h

end Moment

def EnumEntry.key (e : EnumEntry) : String × Place := (e.fullName, e.place)

theorem Chained.enumKeys_isPrefix {db db₁ : Database} {ms : List Moment} (h : Chained db ms db₁) :
    db.enums.map EnumEntry.key <+: db₁.enums.map EnumEntry.key := by
  induction h with
  | nil => exact List.prefix_rfl
  | @cons m ms db₁ further ih =>
    rcases m.enums_step with ⟨-, hafter⟩ | ⟨fullName, -, -, hafter⟩ | ⟨-, hafter, -⟩
    · rw [hafter, Database.addConstantTo_map (fun _ _ => rfl)] at ih
      exact ih
    · rw [hafter, List.map_append] at ih
      exact (List.prefix_append _ _).trans ih
    · rw [hafter] at ih
      exact ih

theorem Database.enumNames_eq (db : Database) : db.enumNames = (db.enums.map EnumEntry.key).map Prod.fst := by
  simp [enumNames, EnumEntry.key]

theorem Chained.enumNames_isPrefix {db db₁ : Database} {ms : List Moment} (h : Chained db ms db₁) :
    db.enumNames <+: db₁.enumNames := by
  rw [db.enumNames_eq, db₁.enumNames_eq]
  exact h.enumKeys_isPrefix.map _

theorem find?_declaredAt {before entries : List EnumEntry} {e : EnumEntry}
    (hkeys : before.map EnumEntry.key <+: entries.map EnumEntry.key) (he : entries[before.length]? = some e)
    (hfresh : e.fullName ∉ before.map EnumEntry.fullName) :
    entries.find? (·.declaredAt e.place) = some e ↔ (before.map EnumEntry.place).any (e.place.same ·) = false := by
  have hkey : ∀ {j : Nat} (hj : j < before.length) (hj' : j < entries.length), entries[j].key = before[j].key := by
    intro j hj hj'
    obtain ⟨rest, hrest⟩ := hkeys
    have hboth : (entries.map EnumEntry.key)[j]? = (before.map EnumEntry.key)[j]? := by
      rw [← hrest, List.getElem?_append_left (by simpa using hj)]
    simpa [hj, hj'] using hboth
  obtain ⟨hlength, he⟩ := List.getElem?_eq_some_iff.mp he
  rw [List.find?_eq_some_iff_getElem, List.any_eq_false]
  constructor
  · rintro ⟨-, i, hi, hfound, hearlier⟩
    have hpast : before.length ≤ i := by
      by_contra hlt
      have hlt : i < before.length := by omega
      have hname : e.fullName = before[i].fullName := congrArg Prod.fst (hfound ▸ hkey hlt hi)
      exact hfresh (hname ▸ List.mem_map_of_mem (List.getElem_mem hlt))
    intro place hplace
    obtain ⟨j, hj, rfl⟩ := List.getElem_of_mem hplace
    have hj : j < before.length := by simpa using hj
    have hnot := hearlier j (by omega)
    have hplace : entries[j].place = before[j].place := congrArg Prod.snd (hkey hj (by omega))
    simpa [EnumEntry.declaredAt, hplace] using hnot
  · intro hnone
    refine ⟨Place.same_refl _, before.length, hlength, he, ?_⟩
    intro j hj
    have hplace : entries[j].place = before[j].place := congrArg Prod.snd (hkey hj (by omega))
    have hnot := hnone before[j].place (List.mem_map_of_mem (List.getElem_mem hj))
    simpa [EnumEntry.declaredAt, hplace] using hnot

/-- An enum was filed by the first event that declares its full name, and has what came to its place since. -/
theorem Chained.enum_filed {db db₁ : Database} {ms : List Moment} (h : Chained db ms db₁) (hempty : db.enums = [])
    {e : EnumEntry} (he : e ∈ db₁.enums) :
    ∃ older m newer, ms = older ++ m :: newer ∧ m.FilesEnum e.fullName ∧ (∀ m' ∈ older, ¬ m'.FilesEnum e.fullName) ∧
      e = m.enumEntry.putAll (received (m.before.db.enums.map EnumEntry.place) m.decl.place newer) ∧
      (db₁.enums.find? (·.declaredAt m.decl.place) = some e ↔
        (m.before.db.enums.map EnumEntry.place).any (m.decl.place.same ·) = false) := by
  obtain ⟨i, hi⟩ := List.mem_iff_getElem?.mp he
  have hname : db₁.enumNames[i]? = some e.fullName := by
    rw [Database.enumNames, List.getElem?_map, hi]
    rfl
  rcases h.origin Moment.enumNames_step hname with hold | ⟨m, hm, hadds, hlength⟩
  · simp [Database.enumNames, hempty] at hold
  obtain ⟨older, newer, rfl⟩ := List.append_of_mem hm
  obtain ⟨hbefore, hsince⟩ := h.split
  have hlength : m.before.db.enums.length = i := by simpa [Database.enumNames] using hlength
  have heq : e = m.enumEntry.putAll (received (m.before.db.enums.map EnumEntry.place) m.decl.place newer) := by
    have hentry : m.after.db.enums[i]? = some m.enumEntry := by
      rw [hadds.added, List.getElem?_append_right (Nat.le_of_eq hlength), hlength, Nat.sub_self]
      rfl
    have hend := hsince.enum hentry
    rw [hi, hadds.added, List.map_append, List.take_left' (by simpa using hlength)] at hend
    exact Option.some.inj hend
  refine ⟨older, m, newer, rfl, hadds.files, ?_, heq, ?_⟩
  · intro m' hm' hfiles
    obtain ⟨older', between, rfl⟩ := List.append_of_mem hm'
    exact hadds.fresh (hbefore.split.2.enumNames_isPrefix.subset hfiles.known)
  · have hplace : m.decl.place = e.place := by rw [heq]; rfl
    have hkeys : m.before.db.enums.map EnumEntry.key <+: db₁.enums.map EnumEntry.key := by
      have hprefix := hsince.enumKeys_isPrefix
      rw [hadds.added, List.map_append] at hprefix
      exact (List.prefix_append _ _).trans hprefix
    rw [hplace]
    exact find?_declaredAt hkeys (hlength ▸ hi) hadds.fresh

/-! ## Constants of a declaration -/

def Collector.constantsAmong (c : Collector) (decls : List Decl) : List (String × Int) :=
  (decls.filter fun d => c.counts d && d.kind == .enumConstant).map fun d => (d.spelling, d.value)

theorem Collector.constantsAmong_subset (c : Collector) {decls decls' : List Decl} (h : decls ⊆ decls') :
    c.constantsAmong decls ⊆ c.constantsAmong decls' := List.map_subset _ (List.filter_subset _ h)

theorem Collector.constantsAmong_replicate (c : Collector) (decls : List Decl) (k : Nat) :
    c.constantsAmong (List.replicate k decls).flatten = (List.replicate k (c.constantsAmong decls)).flatten := by
  simp [constantsAmong, List.filter_flatten, List.map_flatten]

namespace DistinctPlaces

variable {units : List SourceUnit} {u : SourceUnit} {d : Decl} {children : Forest}

/-- An enum takes nothing but the constants right below its declaration, and none if the declaration filed
another enum before. -/
theorem received_eq (h : DistinctPlaces units) (hu : u ∈ units) (hnode : (d, children) ∈ u.forest.nodes)
    (c : Collector) (places : List Place) {ms : List Moment} (hms : ∀ m ∈ ms, m ∈ c.history units) :
    received places d.place ms =
      if places.any (d.place.same ·) then [] else c.constantsAmong (metUnder d ms) := by
  have hparent : ∀ m ∈ ms, m.parent.place.same d.place = (m.parent == d) := by
    intro m hm
    obtain ⟨v, hv, c₁, hm₁⟩ := Collector.mem_moments_of_history (hms m hm)
    by_cases heq : m.parent = d
    · simp [heq, Place.same_refl]
    · rw [beq_eq_false_iff_ne.mpr heq, Bool.eq_false_iff]
      exact fun hsame => heq (h.parent_of_same hu hnode hv hm₁ hsame)
  have htaken : ∀ m ∈ ms, (m.isConstant && (m.parent.place.same d.place && !places.any (m.parent.place.same ·))) =
      (!places.any (d.place.same ·) && ((c.counts m.decl && m.decl.kind == .enumConstant) && m.parent == d)) := by
    intro m hm
    rw [hparent m hm, Moment.isConstant, c.history_counts units m (hms m hm)]
    by_cases heq : m.parent = d
    · simp [heq, Bool.and_comm]
    · simp [beq_eq_false_iff_ne.mpr heq]
  rw [received, List.filter_congr htaken]
  cases places.any (d.place.same ·) with
  | true => simp
  | false => simp [Collector.constantsAmong, metUnder, List.filter_map, Function.comp_def]

theorem metUnder_subset (h : DistinctPlaces units) (hu : u ∈ units) (hnode : (d, children) ∈ u.forest.nodes)
    {c : Collector} {ms : List Moment} (hms : ∀ m ∈ ms, m ∈ c.history units) : metUnder d ms ⊆ children.tops := by
  intro child hchild
  obtain ⟨m, hm, hparent, rfl⟩ := mem_metUnder.mp hchild
  obtain ⟨v, hv, c₁, hm₁⟩ := Collector.mem_moments_of_history (hms m hm)
  exact (h.decl_of_parent hu hnode hv hm₁ hparent).1

theorem metUnder_since (h : DistinctPlaces units) (hu : u ∈ units) {c : Collector} {older newer : List Moment}
    {m : Moment} {fullName : String} (hhistory : c.history units = older ++ m :: newer) (hfiles : m.FilesEnum fullName)
    (hnode : (m.decl, children) ∈ u.forest.nodes)
    (hok : ∀ m' ∈ newer, m'.decl ∈ children.nodes.map Prod.fst → ∀ e, m'.outcome.answer ≠ .error e) :
    ∃ k, metUnder m.decl newer = (List.replicate (k + 1) children.tops).flatten := by
  obtain ⟨before, v, after, older', later, rfl, hmoments, rfl⟩ := Collector.history_split hhistory
  have hv : v ∈ before ++ v :: after := by simp
  have hentered : m.outcome.answer = .ok .enter := by
    rw [hfiles.outcome_eq]
    rfl
  obtain ⟨-, hlater⟩ := h.metUnder_of_entered hu hnode hv hmoments rfl hentered
    fun m' hm' => hok m' (List.mem_append_left _ hm')
  have hafter : ∀ w ∈ after, w ∈ before ++ v :: after := fun w hw => by simp [hw]
  obtain ⟨k, hk⟩ := h.metUnder_history hu hnode hafter fun m' hm' => hok m' (List.mem_append_right _ hm')
  refine ⟨k, ?_⟩
  rw [metUnder_append, hlater, hk, List.replicate_succ, List.flatten_cons]

end DistinctPlaces

/-- Every enum was filed by the first event that declares its full name. It has no constants but those right below
that declaration, and none at all if the declaration had filed an enum of another name before. Otherwise, if no
event below the declaration failed, it has all of them: each name where it came first, with the value it got last. -/
theorem enum_constants_of_first_declaration {base : String} {roots : List String} {units : List SourceUnit}
    (distinct : DistinctPlaces units) :
    ∀ e ∈ ((Collector.start base roots {}).collectAll units).db.enums,
      ∃ older m newer u children,
        (Collector.start base roots {}).history units = older ++ m :: newer ∧
        m.FilesEnum e.fullName ∧ (∀ m' ∈ older, ¬ m'.FilesEnum e.fullName) ∧ e.place = m.decl.place ∧
        u ∈ units ∧ (m.decl, children) ∈ u.forest.nodes ∧
        (∀ pair ∈ e.record.constants, pair ∈ (Collector.start base roots {}).constantsAmong children.tops) ∧
        (((Collector.start base roots {}).collectAll units).db.enums.find? (·.declaredAt e.place) ≠ some e →
          e.record.constants = []) ∧
        (((Collector.start base roots {}).collectAll units).db.enums.find? (·.declaredAt e.place) = some e →
          (∀ m' ∈ newer, m'.decl ∈ children.nodes.map Prod.fst → ∀ broken, m'.outcome.answer ≠ .error broken) →
            e.record.constants.map Prod.fst =
              (((Collector.start base roots {}).constantsAmong children.tops).map Prod.fst).eraseDups ∧
            ∀ name, e.record.constants.lookup name =
              ((Collector.start base roots {}).constantsAmong children.tops).reverse.lookup name) := by
  intro e he
  generalize hc : Collector.start base roots {} = c at he ⊢
  have hempty : c.db.enums = [] := by rw [← hc]; rfl
  obtain ⟨older, m, newer, hhistory, hfiles, hfirst, heq, hfind⟩ :=
    (Collector.chained_history units c).enum_filed hempty he
  have hm : m ∈ c.history units := by rw [hhistory]; simp
  have hnewer : ∀ m' ∈ newer, m' ∈ c.history units := fun m' hm' => by rw [hhistory]; simp [hm']
  obtain ⟨u, hu, children, hnode⟩ : ∃ u ∈ units, ∃ children, (m.decl, children) ∈ u.forest.nodes := by
    obtain ⟨u, hu, c₁, hm₁⟩ := Collector.mem_moments_of_history hm
    obtain ⟨node, hnode, hdecl⟩ := (c₁.chained_moments u).2 m hm₁
    exact ⟨u, hu, node.2, hdecl ▸ hnode⟩
  have hplace : e.place = m.decl.place := by rw [heq]; rfl
  have hreceived := distinct.received_eq hu hnode c (m.before.db.enums.map EnumEntry.place) hnewer
  have hconstants : e.record.constants =
      putConstants [] (received (m.before.db.enums.map EnumEntry.place) m.decl.place newer) := by rw [heq]; rfl
  rw [hreceived] at hconstants
  refine ⟨older, m, newer, u, children, hhistory, hfiles, hfirst, hplace, hu, hnode, ?_, ?_, ?_⟩
  · intro pair hpair
    rw [hconstants] at hpair
    split at hpair
    · cases hpair
    · exact c.constantsAmong_subset (distinct.metUnder_subset hu hnode hnewer) (mem_of_mem_putConstants pair hpair)
  · intro hne
    have hagain := mt hfind.mpr (hplace ▸ hne)
    rw [hconstants, if_pos (by simpa using hagain)]
    rfl
  · intro hfound hok
    have hnone := hfind.mp (hplace ▸ hfound)
    obtain ⟨k, hk⟩ := distinct.metUnder_since hu hhistory hfiles hnode hok
    rw [hconstants, hnone, if_neg Bool.false_ne_true, hk, Collector.constantsAmong_replicate]
    exact putConstants_replicate _ k

def Decl.constant (around : Decl) (serial : Nat) (spelling : String) (value : Int) : Decl × Forest :=
  ({ around.within serial .enumConstant spelling with value := value }, .nil)

namespace EnumAgain

def first : Decl := (Decl.wholeFile 0).within 1 .enumDecl "E"
def constants : Forest := .ofList [first.constant 2 "a" 1, first.constant 3 "b" 2, first.constant 4 "a" 3]

-- `enum E { a = 1, b = 2, a = 3 };`
def unit : SourceUnit := ⟨.wholeFile 0, .ofList [(first, constants)]⟩

def second : Decl := (Decl.wholeFile 10).within 11 .enumDecl "E"

-- `enum E { c = 4, b = 5 };`
def otherUnit : SourceUnit :=
  ⟨.wholeFile 10, .ofList [(second, .ofList [second.constant 12 "c" 4, second.constant 13 "b" 5])]⟩

def units : List SourceUnit := [unit, otherUnit, unit]

def state : Collector := (Collector.start "/" [] {}).collectAll units

end EnumAgain

open EnumAgain in
theorem constants_of_enum_declared_again :
    ∃ e ∈ state.db.enums, e.fullName = "::E" ∧ e.record.constants.map Prod.fst = ["a", "b"] ∧
      e.record.constants.lookup "a" = some 3 ∧ e.record.constants.lookup "c" = none := by
  have distinct : DistinctPlaces units := by decide
  obtain ⟨e, he⟩ : ∃ e, state.db.enums[0]? = some e := ⟨_, rfl⟩
  have hname : state.db.enums[0]?.map EnumEntry.key = some ("::E", first.place) := rfl
  rw [he, Option.map_some, Option.some.injEq] at hname
  obtain ⟨hfull, hplace⟩ := Prod.mk.inj hname
  have hm := List.mem_of_getElem? he
  obtain ⟨older, m, newer, u, children, hhistory, -, -, hdecl, hu, hnode, -, -, hall⟩ :=
    enum_constants_of_first_declaration distinct e hm
  have hmem : unit ∈ units := List.mem_cons_self ..
  have hfirst : (first, constants) ∈ unit.forest.nodes := List.mem_cons_self ..
  have hsame : m.decl = first := by
    apply distinct.eq_of_same hu hmem (List.mem_cons_of_mem _ (List.mem_map_of_mem hnode))
      (List.mem_cons_of_mem _ (List.mem_map_of_mem hfirst))
    rw [← hdecl, hplace]
    rfl
  rw [hsame] at hnode
  rw [distinct.children_eq hu hmem hnode hfirst] at hall
  have hfound : state.db.enums.find? (·.declaredAt e.place) = some e := by
    rw [show e.place = first.place from hplace, ← he]
    rfl
  have hnever : ∀ m' ∈ (Collector.start "/" [] {}).history units, m'.outcome.answer.toOption.isSome = true := by
    decide
  obtain ⟨hnames, hvalues⟩ := hall hfound fun m' hm' _ broken herror => by
    have hok := hnever m' (by rw [hhistory]; simp [hm'])
    rw [herror] at hok
    cases hok
  exact ⟨e, hm, hfull, hnames, hvalues "a", hvalues "c"⟩

namespace EnumCut

def cut : Decl := (Decl.wholeFile 0).within 1 .enumDecl "E"
def broken : Decl :=
  { cut.within 3 .functionDecl "f" with prototype := some { arguments := [.missing] } }
def constants : Forest := .ofList [cut.constant 2 "a" 1, (broken, .nil), cut.constant 4 "b" 2]

-- an enum with a function of a broken type between its two constants
def unit : SourceUnit := ⟨.wholeFile 0, .ofList [(cut, constants)]⟩

def state : Collector := (Collector.start "/" [] {}).collectAll [unit]

end EnumCut

namespace EnumMoved

def whole : Decl := (Decl.wholeFile 0).within 1 .structDecl "A"
def linkage : Decl := whole.within 2 .linkageSpec ""
def moved : Decl := linkage.within 3 .enumDecl "E"
def constants : Forest := .ofList [moved.constant 4 "x" 1]

-- an enum whose scope is a struct that the file declares after it
def unit : SourceUnit := ⟨.wholeFile 0, .ofList [(linkage, .ofList [(moved, constants)]), (whole, .nil)]⟩

def state : Collector := (Collector.start "/" [] {}).collectAll [unit, unit]

end EnumMoved

/-- An enum lacks constants of its declaration if an event below it fails, or if the declaration filed another
enum when it came before. -/
theorem enum_without_constants_of_its_declaration :
    (DistinctPlaces [EnumCut.unit] ∧
      EnumCut.state.db.enums.map (fun e => (e.key, e.record.constants)) =
        [(("::E", EnumCut.cut.place), [("a", 1)])] ∧
      EnumCut.state.constantsAmong EnumCut.constants.tops = [("a", 1), ("b", 2)]) ∧
    (DistinctPlaces [EnumMoved.unit, EnumMoved.unit] ∧
      EnumMoved.state.db.enums.map (fun e => (e.key, e.record.constants)) =
        [(("::E", EnumMoved.moved.place), [("x", 1)]), (("::A::E", EnumMoved.moved.place), [])] ∧
      EnumMoved.state.constantsAmong EnumMoved.constants.tops = [("x", 1)]) :=
  ⟨⟨⟨by decide, by decide⟩, rfl, rfl⟩, ⟨by decide, by decide⟩, rfl, rfl⟩

end SymbolIndex
