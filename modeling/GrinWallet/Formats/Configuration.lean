import GrinWallet.Model.SampleConfig
import Mathlib.Tactic.Common

/-! # Saving the configuration

What a save does to the document of the configuration file: the keys of the wallet have
the values of the new configuration, and what else stands in the file stays, wherever
its table is merged and not replaced or removed.
-/

namespace GrinWallet

open Document Effect

/-! ## The keys of a configuration -/

section Keys

variable {C L : Type} [ChainTypes C] [LawfulSerde C] [Serde L] [LawfulSerde L]

theorem WalletConfig.fields_lawful : (WalletConfig.fields C).Lawful := by
  unfold WalletConfig.fields
  repeat refine .field ?_ (by simp [Fields.field, Fields.fieldOr, Fields.done])
  exact .done

instance : LawfulSerde (WalletConfig C) :=
  .record WalletConfig.fields_lawful (by simp [WalletConfig.fields, Fields.field, Fields.fieldOr,
    Fields.done]) fun _ => rfl

theorem TorBridgeConfig.fields_lawful : TorBridgeConfig.fields.Lawful := by
  repeat refine .field ?_ (by decide)
  exact .done

instance : LawfulSerde TorBridgeConfig :=
  .record TorBridgeConfig.fields_lawful (by decide) fun _ => rfl

theorem TorProxyConfig.fields_lawful : TorProxyConfig.fields.Lawful := by
  repeat refine .field ?_ (by decide)
  exact .done

instance : LawfulSerde TorProxyConfig :=
  .record TorProxyConfig.fields_lawful (by decide) fun _ => rfl

theorem TorConfig.fields_lawful : TorConfig.fields.Lawful := by
  unfold TorConfig.fields
  repeat refine .field ?_ (by decide)
  exact .fieldOr (.fieldOr .done (by decide) _) (by decide) _

instance : LawfulSerde TorConfig := .record TorConfig.fields_lawful (by decide) fun _ => rfl

theorem GlobalWalletConfigMembers.fields_lawful :
    (GlobalWalletConfigMembers.fields C L).Lawful := by
  refine .field (.fieldOr (.field (.field .done ?_) ?_) ?_ _) ?_ <;>
    simp [Fields.field, Fields.fieldOr, Fields.done]

instance : LawfulSerde (GlobalWalletConfigMembers C L) :=
  .record GlobalWalletConfigMembers.fields_lawful (by simp [GlobalWalletConfigMembers.fields,
    Fields.field, Fields.fieldOr, Fields.done]) fun _ => rfl

end Keys

/-! ## One table -/

namespace GlobalWalletConfig

variable {flag : Bool} {known : Option Entries} {path : String} {new current : Entries}

theorem get_foldl_remove (keys : List String) (es : Entries) (name : String) :
    (keys.foldl (fun es key => es.remove key) es).get name =
      if name ∈ keys then none else es.get name := by
  induction keys generalizing es with
  | nil => simp
  | cons key keys ih =>
      rw [List.foldl_cons, ih, Entries.get_remove]
      by_cases hmem : name ∈ keys
      · simp [hmem]
      · by_cases heq : name = key <;> simp [hmem, heq]

theorem get_removeUnset (name : String) :
    (removeUnset known new current).get name =
      if (known.bind (·.get name)).isSome ∧ (new.get name).isNone then none
      else current.get name := by
  cases known with
  | none => simp [removeUnset]
  | some known =>
      simp only [removeUnset]
      rw [get_foldl_remove]
      simp [Entries.mem_names]

/-- What stands under a key after a merge: the new item, merged with the one that was there. -/
theorem get_updateEach (hnames : new.names.Nodup) (name : String) :
    (updateEach flag known path new current).get name =
      match new.get name with
      | none => current.get name
      | some newItem =>
          some (match current.get name with
            | none => newItem
            | some item => updateItem flag (known.bind (·.get name)) (itemPath path name) newItem item) := by
  induction new generalizing current with
  | nil => simp [updateEach]
  | cons key newItem rest ih =>
      obtain ⟨hkey, hrest⟩ := List.nodup_cons.mp hnames
      have hnone := Entries.get_eq_none.mpr hkey
      by_cases heq : key.name = name
      · subst heq
        cases hcurrent : current.get key.name with
        | none =>
            simp only [updateEach, hcurrent, Entries.get, if_true]
            rw [ih hrest, hnone]
            simp [Entries.get_push hcurrent]
        | some item =>
            simp only [updateEach, hcurrent, Entries.get, if_true]
            rw [ih hrest, hnone]
            simp [Entries.get_set, hcurrent]
      · cases hcurrent : current.get key.name with
        | none =>
            simp only [updateEach, hcurrent, Entries.get, if_neg heq]
            rw [ih hrest]
            simp [Entries.get_push hcurrent, Ne.symm heq]
        | some item =>
            simp only [updateEach, hcurrent, Entries.get, if_neg heq]
            rw [ih hrest]
            simp [Entries.get_set, Ne.symm heq]

/-- Only a table is merged into a table. -/
theorem updateItem_of_not_table {known : Option Item} {newItem item : Item}
    (h : newItem.asTable = none ∨ item.asTable = none) :
    (updateItem flag known path newItem item).bare = newItem.bare := by
  cases newItem <;> cases item <;>
    first
      | rfl
      | rcases h with h | h <;> cases h

theorem updateItem_new_table {known : Option Item} {entries : Entries} {dotted : Bool} {decor : Decor}
    {item : Item} (h : item.asTable = none) :
    updateItem flag known path (.table entries dotted decor) item = .table entries dotted decor := by
  cases item <;> first | rfl | cases h

/-! ## Two documents with the keys of one schema -/

/-- A table that is merged into another: it has the form of the schema, and the keys of
the schema that the other has are known. -/
structure Merges (fields : List (String × Schema)) (known new current : Entries) : Prop where
  form : HasForm (.record fields) new.root
  keyed : Keyed new.root
  knownForm : HasForm (.record fields) known.root
  covers : Covers (.record fields) known.root current.root

variable {fields : List (String × Schema)} {known : Entries} {name : String} {s : Schema}

theorem Merges.get_unknown (h : Merges fields known new current) (hs : fields.lookup name = none) :
    (update flag (some known) path new current).get name = current.get name := by
  have hnew : new.get name = none := h.form.get_unknown hs
  have hknown : known.get name = none := h.knownForm.get_unknown hs
  rw [update, get_updateEach (h.keyed [] _ _ rfl rfl), hnew]
  simp only []
  rw [get_removeUnset, hnew]
  simp [hknown]

theorem Merges.get_known (h : Merges fields known new current) (hs : fields.lookup name = some s) :
    (update flag (some known) path new current).get name =
      (new.get name).map fun newItem =>
        match current.get name with
        | none => newItem
        | some item => updateItem flag (known.get name) (itemPath path name) newItem item := by
  rw [update, get_updateEach (h.keyed [] _ _ rfl rfl)]
  cases hnew : new.get name with
  | some newItem =>
      simp only [get_removeUnset, hnew]
      simp
  | none =>
      simp only [get_removeUnset, hnew]
      cases hcurrent : current.get name with
      | none => simp
      | some item =>
          obtain ⟨i, hi, -⟩ := h.covers.get hs (i := item) hcurrent
          have hknown : known.get name = some i := hi
          simp [hknown]

theorem Merges.sub {newItem item : Item} {ns cs : Entries} {inner : List (String × Schema)}
    (h : Merges fields known new current) (hs : fields.lookup name = some (.record inner))
    (hnew : new.get name = some newItem) (hnewTable : newItem.asTable = some ns)
    (hcurrent : current.get name = some item) (htable : item.asTable = some cs) :
    ∃ ks, (known.get name).bind Item.asTable = some ks ∧ Merges inner ks ns cs := by
  obtain ⟨i, hi, hcovers⟩ := h.covers.get hs (i := item) hcurrent
  have hknown : known.get name = some i := hi
  have hform := h.knownForm.get hs hi
  obtain ⟨ks, hks⟩ := hform.table
  refine ⟨ks, by rw [hknown]; exact hks, ?_⟩
  have hentries := Item.entries?_of_asTable hks
  have hnewEntries := Item.entries?_of_asTable hnewTable
  exact ⟨(h.form.get hs hnew).root hnewEntries, (h.keyed.get hnew).root hnewEntries,
    hform.root hentries, hcovers.root hentries (Item.entries?_of_asTable htable)⟩

theorem updateItem_table {known : Option Item} {newItem item : Item} {ns cs ks : Entries}
    (hnew : newItem.asTable = some ns) (hitem : item.asTable = some cs)
    (hknown : known.bind Item.asTable = some ks) :
    (updateItem flag known path newItem item).entries? = some (update flag (some ks) path ns cs) := by
  cases newItem <;> cases hnew
  cases item <;> cases hitem
  rw [updateItem, hknown]
  rfl

/-- Every key of the schema has the value of the new document, or none if that has none. -/
theorem Merges.value (h : Merges fields known new current) {q : List String}
    (hplace : (Schema.record fields).place q = .value) :
    ((update flag (some known) path new current).find q).map Item.bare =
      (new.find q).map Item.bare := by
  induction q generalizing fields known new current path with
  | nil => cases hplace
  | cons name q ih =>
      cases hs : fields.lookup name with
      | none =>
          rw [Schema.place_cons_unknown hs] at hplace
          cases hplace
      | some s =>
          rw [Schema.place_cons hs] at hplace
          rw [Entries.find_cons, Entries.find_cons, h.get_known hs]
          cases hnew : new.get name with
          | none => rfl
          | some newItem =>
              have hform := h.form.get hs hnew
              cases hcurrent : current.get name with
              | none => rfl
              | some item =>
                  show ((updateItem flag _ _ newItem item).find q).map Item.bare =
                    (newItem.find q).map Item.bare
                  cases s with
                  | leaf =>
                      cases q with
                      | cons _ _ => cases hplace
                      | nil =>
                          have hleaf : newItem.asTable = none := by
                            cases htable : newItem.asTable with
                            | none => rfl
                            | some es =>
                                have hes := Item.entries?_of_asTable htable
                                rw [hform.leaf.1] at hes
                                cases hes
                          exact congrArg some (updateItem_of_not_table (.inl hleaf))
                  | record inner =>
                      obtain ⟨ns, hns⟩ := hform.table
                      cases hcs : item.asTable with
                      | none =>
                          cases newItem <;> cases hns
                          rw [updateItem_new_table hcs]
                      | some cs =>
                          obtain ⟨ks, hks, hsub⟩ := h.sub hs hnew hns hcurrent hcs
                          cases q with
                          | nil => cases hplace
                          | cons first q =>
                              have hmerged : (updateItem flag (known.get name) (itemPath path name)
                                  newItem item).entries? =
                                (update flag (some ks) (itemPath path name) ns cs).root.entries? :=
                                updateItem_table hns hcs hks
                              have hnewSame : newItem.entries? = ns.root.entries? :=
                                Item.entries?_of_asTable hns
                              rw [Item.find_cons_congr hmerged, Item.find_cons_congr hnewSame]
                              exact ih hsub hplace

/-- The sections above a key are open: tables in the document, and set in the new one. -/
def SectionsOpen (schema : Schema) (new current : Entries) (q : List String) : Prop :=
  ∀ s t, q = s ++ t → schema.place s = .section →
    ((current.find s).bind Item.asTable).isSome ∧ (new.find s).isSome

theorem sectionsOpen_cons {inner : List (String × Schema)} {newItem item : Item} {ns cs : Entries}
    (hs : fields.lookup name = some (.record inner)) (hnew : new.get name = some newItem)
    (hnewTable : newItem.asTable = some ns) (hcurrent : current.get name = some item)
    (htable : item.asTable = some cs) (q : List String) :
    SectionsOpen (.record fields) new current (name :: q) ↔ SectionsOpen (.record inner) ns cs q := by
  have hfind : ∀ s, ((current.find (name :: s)).bind Item.asTable).isSome ∧
      (new.find (name :: s)).isSome ↔ ((cs.find s).bind Item.asTable).isSome ∧ (ns.find s).isSome := by
    intro s
    rw [Entries.find_cons, Entries.find_cons, hnew, hcurrent]
    cases s with
    | nil =>
        show (item.asTable).isSome ∧ (some newItem).isSome ↔ _
        rw [htable]
        exact iff_of_true ⟨rfl, rfl⟩ ⟨rfl, rfl⟩
    | cons first s =>
        have hitemSame : item.entries? = cs.root.entries? := Item.entries?_of_asTable htable
        have hnewSame : newItem.entries? = ns.root.entries? := Item.entries?_of_asTable hnewTable
        show ((item.find (first :: s)).bind Item.asTable).isSome ∧ (newItem.find (first :: s)).isSome ↔ _
        rw [Item.find_cons_congr hitemSame, Item.find_cons_congr hnewSame]
        exact Iff.rfl
  constructor
  · intro h s t hq hplace
    exact (hfind s).mp (h (name :: s) t (by rw [hq]; rfl) (by rw [Schema.place_cons hs]; exact hplace))
  · intro h s t hq hplace
    cases s with
    | nil => exact ⟨rfl, rfl⟩
    | cons first s =>
        obtain ⟨hfirst, hrest⟩ := List.cons.inj hq
        subst hfirst
        rw [Schema.place_cons hs] at hplace
        exact (hfind s).mpr (h s t hrest hplace)

/-- A key outside the schema stays where the sections above it are open. -/
theorem Merges.unknown_iff (h : Merges fields known new current) {q : List String} {found : Item}
    (hplace : (Schema.record fields).place q = .unknown) (hfind : current.find q = some found) :
    (update flag (some known) path new current).find q = some found ↔
      SectionsOpen (.record fields) new current q := by
  induction q generalizing fields known new current path with
  | nil => cases hplace
  | cons name q ih =>
      cases hs : fields.lookup name with
      | none =>
          refine iff_of_true ?_ fun s t hq hsection => ?_
          · rw [Entries.find_cons, h.get_unknown hs]
            exact hfind
          · cases s with
            | nil => exact ⟨rfl, rfl⟩
            | cons first s =>
                obtain ⟨rfl, -⟩ := List.cons.inj hq
                rw [Schema.place_cons_unknown hs] at hsection
                cases hsection
      | some s =>
          rw [Schema.place_cons hs] at hplace
          cases s with
          | leaf => cases q <;> cases hplace
          | record inner =>
              rw [Entries.find_cons] at hfind
              cases hcurrent : current.get name with
              | none =>
                  rw [hcurrent] at hfind
                  cases hfind
              | some item =>
                  rw [hcurrent] at hfind
                  have hitem : item.find q = some found := hfind
                  have hopen : SectionsOpen (.record fields) new current (name :: q) →
                      item.asTable.isSome ∧ (new.get name).isSome := by
                    intro hsections
                    have hname := hsections [name] q rfl (by rw [Schema.place_cons hs]; rfl)
                    rw [Entries.find_cons, Entries.find_cons, hcurrent] at hname
                    refine ⟨hname.1, ?_⟩
                    cases hnew : new.get name with
                    | none =>
                        rw [hnew] at hname
                        exact hname.2
                    | some _ => rfl
                  rw [Entries.find_cons, h.get_known hs, hcurrent]
                  cases hnew : new.get name with
                  | none =>
                      refine iff_of_false (fun hnone => by cases hnone) fun hsections => ?_
                      have hset := (hopen hsections).2
                      rw [hnew] at hset
                      cases hset
                  | some newItem =>
                      have hform := h.form.get hs hnew
                      obtain ⟨ns, hns⟩ := hform.table
                      show (updateItem flag _ _ newItem item).find q = some found ↔ _
                      cases hcs : item.asTable with
                      | none =>
                          refine iff_of_false (fun hfound => ?_) fun hsections => ?_
                          · cases newItem <;> cases hns
                            rw [updateItem_new_table hcs] at hfound
                            have hplaced := hform q found hfound
                            rw [hplace] at hplaced
                            exact hplaced
                          · have htable := (hopen hsections).1
                            rw [hcs] at htable
                            cases htable
                      | some cs =>
                          obtain ⟨ks, hks, hsub⟩ := h.sub hs hnew hns hcurrent hcs
                          cases q with
                          | nil => cases hplace
                          | cons first q =>
                              have hmerged : (updateItem flag (known.get name) (itemPath path name)
                                  newItem item).entries? =
                                (update flag (some ks) (itemPath path name) ns cs).root.entries? :=
                                updateItem_table hns hcs hks
                              have hitemSame : item.entries? = cs.root.entries? :=
                                Item.entries?_of_asTable hcs
                              rw [Item.find_cons_congr hitemSame] at hitem
                              rw [Item.find_cons_congr hmerged, sectionsOpen_cons hs hnew hns hcurrent hcs]
                              exact ih hsub hplace hitem

end GlobalWalletConfig

/-! ## A save -/

namespace GlobalWalletConfig

variable {C L : Type} [ChainTypes C] [LawfulSerde C] [Serde L] [LawfulSerde L]

/-- The keys the wallet knows. -/
def schema (C L : Type) [ChainTypes C] [Serde L] : Schema :=
  Serde.schema (GlobalWalletConfigMembers C L)

/-- A document of the form configurations are written in. -/
structure IsConfig (C L : Type) [ChainTypes C] [Serde L] (document : Entries) : Prop where
  form : HasForm (schema C L) document.root
  keyed : Keyed document.root

/-- A configuration is written as a document of that form. -/
theorem serConfig_isConfig (members : GlobalWalletConfigMembers C L) :
    IsConfig C L (serConfig members) := by
  obtain ⟨hform, hkeyed⟩ := LawfulSerde.form members _ rfl
  exact ⟨hform.root rfl, hkeyed.root rfl⟩

/-- A save that keeps what it does not know: every key of the wallet has its value in the
new configuration, or is gone if it is unset there, and every other key of the old
document stands where it stood, with its old value. -/
structure Saved (C L : Type) [ChainTypes C] [Serde L] (old new saved : Entries) : Prop where
  known : ∀ q, (schema C L).place q = .value →
    (saved.find q).map Item.bare = (new.find q).map Item.bare
  unknown : ∀ q found, (schema C L).place q = .unknown → old.find q = some found →
    saved.find q = some found

omit [LawfulSerde C] [LawfulSerde L] in
theorem mergeConfig_eq_ok {old new saved : Entries} {oldVersion : Option UInt32}
    (h : mergeConfig C L old new oldVersion = .ok saved) :
    ∃ members : GlobalWalletConfigMembers C L,
      Serde.deserialize (some old.root) = .ok members ∧
        saved = update oldVersion.isNone (some (serConfig members)) "" new old := by
  unfold mergeConfig at h
  obtain ⟨members, hmembers, hsaved⟩ := except_bind_eq_ok.mp h
  refine ⟨members, ?_, by cases hsaved; rfl⟩
  cases hread : (Serde.deserialize (some old.root) : Except String (GlobalWalletConfigMembers C L)) with
  | error e =>
      rw [hread] at hmembers
      cases hmembers
  | ok m =>
      rw [hread] at hmembers
      cases hmembers
      rfl

/-- Merging keeps what it does not know exactly when the sections above each unknown key
are tables in the old document, not values, and set in the new one. -/
theorem mergeConfig_saves_iff {old new saved : Entries} {oldVersion : Option UInt32}
    (hnew : IsConfig C L new) (h : mergeConfig C L old new oldVersion = .ok saved) :
    Saved C L old new saved ↔
      ∀ q, (schema C L).place q = .unknown → (old.find q).isSome →
        SectionsOpen (schema C L) new old q := by
  obtain ⟨members, hread, rfl⟩ := mergeConfig_eq_ok h
  obtain ⟨j, hj, hcovers⟩ := LawfulSerde.covers members old.root hread
  have hmerges : Merges (GlobalWalletConfigMembers.fields C L).schema (serConfig members) new old := by
    have hknown := serConfig_isConfig members
    have hsame : j.entries? = some (serConfig members) := by
      cases hj
      rfl
    exact ⟨hnew.form, hnew.keyed, hknown.form, hcovers.root hsame rfl⟩
  constructor
  · intro hsaved q hplace hfind
    obtain ⟨found, hfound⟩ := Option.isSome_iff_exists.mp hfind
    exact (hmerges.unknown_iff hplace hfound).mp (hsaved.unknown q found hplace hfound)
  · intro hopen
    refine ⟨fun q hplace => hmerges.value hplace, fun q found hplace hfound => ?_⟩
    exact (hmerges.unknown_iff hplace hfound).mpr (hopen q hplace (by rw [hfound]; rfl))

open SampleConfig

/-- The bridge section's setting of a later version is lost when the section is written
inline: it is replaced as a value. -/
theorem inline_section_is_replaced :
    ∃ saved, mergeConfig Chain LoggingConfig withInlineBridge (serConfig withoutListener) (some 2)
      = .ok saved ∧ ¬ Saved Chain LoggingConfig withInlineBridge (serConfig withoutListener) saved := by
  refine ⟨_, rfl, fun h => ?_⟩
  have hkept := h.unknown ["tor", "bridge", "future_setting"] (SampleConfig.string "bridge") rfl rfl
  revert hkept
  decide +kernel

theorem mergeConfig_saves_iff_bridge :
    ∃ saved, mergeConfig Chain LoggingConfig withBridgeTable (serConfig withoutListener) (some 2)
      = .ok saved ∧
      (Saved Chain LoggingConfig withBridgeTable (serConfig withoutListener) saved ↔
        ∀ q, (schema Chain LoggingConfig).place q = .unknown → (withBridgeTable.find q).isSome →
          SectionsOpen (schema Chain LoggingConfig) (serConfig withoutListener) withBridgeTable q) :=
  ⟨_, rfl, mergeConfig_saves_iff (serConfig_isConfig withoutListener) rfl⟩

end GlobalWalletConfig

end GrinWallet
