import Thesaurus.Proofs.Text.Reader
import Thesaurus.Proofs.Toml.Quoted
import Thesaurus.Toml.Document
import Thesaurus.Toml.Settings

/-!
# Written settings are read again

A document of settings is read line by line, and each line has the effect that it is meant to have:
a setting becomes the last entry of its table, and a header opens the next table.

- `IsBare`: the names that need no quotes.
- `Setting.readValue_write`: what stands for a setting is read as its value.
- `readLine_settingLine`, `readLine_tableLine`: what the two kinds of lines do.
- `insert?_outer`, `insert?_inner`, `openTable?_new`: what becomes of the entries so far.
- `iterate_settingLines`, `iterate_tables`: lines and tables one after the other.
- `readTable?_write`: the whole document is read as the table that was written.
-/

namespace Thesaurus

namespace Toml

open Text (iterate iterate_append)

variable {name : String} {written rest : List Char} {value : Value} {d d' : Document}
  {entries : Entries} {found : Document × List Char}

/-! ## Names -/

/-- A name that is written without quotes. -/
def IsBare (name : String) : Prop :=
  name.toList.isEmpty = false ∧ name.toList.all isBareChar = true

instance (name : String) : Decidable (IsBare name) :=
  inferInstanceAs (Decidable (_ ∧ _))

/-- A character of a name is no blank, and starts neither quotes nor lines of other kinds. -/
theorem ne_of_isBareChar {c : Char} (h : isBareChar c = true) :
    isLineBlank c = false ∧ c ≠ '\x22' ∧ c ≠ '\x27' ∧ c ≠ '[' ∧ c ≠ '#' ∧ c ≠ '\n' ∧ c ≠ '\r' := by
  refine ⟨?_, ?_, ?_, ?_, ?_, ?_, ?_⟩
  · by_contra hblank
    rw [Bool.not_eq_false, isLineBlank, Bool.or_eq_true, beq_iff_eq, beq_iff_eq] at hblank
    rcases hblank with rfl | rfl <;> exact absurd h (by decide)
  all_goals
    rintro rfl
    exact absurd h (by decide)

theorem skipBlanks_cons {c : Char} (h : isLineBlank c = false) (s : List Char) :
    skipBlanks (c :: s) = c :: s :=
  List.dropWhile_cons_of_neg (by simp [h])

theorem IsBare.exists_cons (h : IsBare name) :
    ∃ c chars, name.toList = c :: chars ∧ isBareChar c = true := by
  obtain ⟨hne, hchars⟩ := h
  match hname : name.toList with
  | [] =>
    rw [hname] at hne
    cases hne
  | c :: chars =>
    rw [hname, List.all_cons, Bool.and_eq_true] at hchars
    exact ⟨c, chars, rfl, hchars.1⟩

theorem skipBlanks_name (h : IsBare name) (rest : List Char) :
    skipBlanks (name.toList ++ rest) = name.toList ++ rest := by
  obtain ⟨c, chars, hname, hc⟩ := h.exists_cons
  rw [hname]
  exact skipBlanks_cons (ne_of_isBareChar hc).1 _

/-- A name without quotes ends where another character stands. -/
theorem readName_bare (h : IsBare name) (hrest : ∀ c ∈ rest.head?, isBareChar c = false) :
    readName (name.toList ++ rest) = some (name, rest) := by
  obtain ⟨hfront, hback⟩ := Text.span_append rest (List.all_eq_true.1 h.2) hrest
  obtain ⟨c, chars, hname, hc⟩ := h.exists_cons
  obtain ⟨-, hdouble, hsingle, -⟩ := ne_of_isBareChar hc
  unfold readName
  split
  · next hquoted =>
    rw [hname, List.cons_append, List.cons.injEq] at hquoted
    exact absurd hquoted.1 hdouble
  · next hquoted =>
    rw [hname, List.cons_append, List.cons.injEq] at hquoted
    exact absurd hquoted.1 hsingle
  · rw [hfront, hback, if_neg (by simp [h.1]), String.ofList_toList]

/-- A key of one name is read, with the blanks after it. -/
theorem readKey_bare (h : IsBare name) (hrest : ∀ c ∈ rest.head?, isBareChar c = false)
    (hdot : (skipBlanks rest).head? ≠ some '.') :
    readKey (name.toList ++ rest) = some (([], name), skipBlanks rest) := by
  rw [readKey, maxDepth, readKeyUpTo, skipBlanks_name h, readName_bare h hrest]
  dsimp only
  split
  · next hd => simp [hd] at hdot
  · rfl

/-! ## Values -/

theorem exists_cons_quote (s : List Char) :
    ∃ c t, quote s = c :: t ∧ (c = '\x22' ∨ c = '\x27') := by
  unfold quote quoteIn
  split
  · exact ⟨_, _, rfl, .inl rfl⟩
  · exact ⟨_, _, rfl, .inr rfl⟩
  · exact ⟨_, _, rfl, .inl rfl⟩
  · exact ⟨_, _, rfl, .inr rfl⟩

/-- A quoted text at the end of a line is read as the text. -/
theorem readValue_quote (text : String) (rest : List Char) :
    readValue (quote text.toList ++ '\n' :: rest) = some (.string text, '\n' :: rest) := by
  have hread : readQuoted (quote text.toList ++ '\n' :: rest) = some (text.toList, '\n' :: rest) :=
    readQuoted_quote text.toList (by simp) (by simp)
  obtain ⟨c, t, hquote, rfl | rfl⟩ := exists_cons_quote text.toList
  · rw [hquote, List.cons_append] at hread ⊢
    rw [readValue, readValueWithin.eq_def]
    simp [hread]
  · rw [hquote, List.cons_append] at hread ⊢
    rw [readValue, readValueWithin.eq_def]
    simp [hread]

/-- What stands for a setting at the end of a line is read as its value. -/
theorem Setting.readValue_write (s : Setting) (rest : List Char) :
    readValue (s.write ++ '\n' :: rest) = some (s.toValue, '\n' :: rest) := by
  cases s with
  | text t => exact readValue_quote t rest
  | switch on => cases on <;> rfl

/-- What stands for a setting does not start with a blank. -/
theorem Setting.skipBlanks_write (s : Setting) (rest : List Char) :
    skipBlanks (s.write ++ rest) = s.write ++ rest := by
  cases s with
  | text t =>
    obtain ⟨c, quoted, hquote, hc⟩ := exists_cons_quote t.toList
    rw [write, hquote, List.cons_append]
    exact skipBlanks_cons (by rcases hc with rfl | rfl <;> rfl) _
  | switch on => cases on <;> rfl

/-! ## Lines -/

/-- A line with a name and a setting adds an entry. -/
theorem readLine_settingLine {setting : Setting} (hname : IsBare name)
    (hinsert : d.insert? [] name setting.toValue = some d') :
    readLine d (settingLine name setting ++ rest) = some (.more d' rest) := by
  have hline : settingLine name setting ++ rest =
      name.toList ++ ' ' :: '=' :: ' ' :: (setting.write ++ '\n' :: rest) := by
    simp [settingLine]
  have hkey : readKey (name.toList ++ ' ' :: '=' :: ' ' :: (setting.write ++ '\n' :: rest)) =
      some (([], name), '=' :: ' ' :: (setting.write ++ '\n' :: rest)) :=
    readKey_bare hname (by rintro _ ⟨⟩; rfl) (by simp [skipBlanks, isLineBlank])
  have hvalue : afterEquals? ('=' :: ' ' :: (setting.write ++ '\n' :: rest)) =
      some (setting.write ++ '\n' :: rest) :=
    congrArg some (setting.skipBlanks_write ('\n' :: rest))
  have hassigned : readAssignment d (settingLine name setting ++ rest) = some (d', rest) := by
    rw [hline, readAssignment, hkey]
    simp [hvalue, setting.readValue_write, hinsert, endLine?, skipComment, skipBlanks, isLineBlank,
      afterBreak?]
  -- the first character of the name rules out the other kinds of lines
  obtain ⟨c, chars, hchars, hc⟩ := hname.exists_cons
  obtain ⟨-, -, -, hbracket, hcomment, hlineFeed, hcarriageReturn⟩ := ne_of_isBareChar hc
  rw [hline] at hassigned ⊢
  rw [readLine, skipBlanks_name hname]
  rw [hchars, List.cons_append] at hassigned ⊢
  split <;> simp_all

/-- A line with the name of a new table opens it. -/
theorem readLine_tableLine (hname : IsBare name)
    (hopen : openTable? [] name d.entries = some entries) :
    readLine d (tableLine name ++ rest) = some (.more ⟨entries, [name]⟩ rest) := by
  have hline : tableLine name ++ rest = '[' :: (name.toList ++ ']' :: '\n' :: rest) := by
    simp [tableLine]
  have hkey : readKey (name.toList ++ ']' :: '\n' :: rest) =
      some (([], name), ']' :: '\n' :: rest) :=
    readKey_bare hname (by rintro _ ⟨⟩; rfl) (by simp [skipBlanks, isLineBlank])
  have hheader : readHeader [']'] openTable? d (name.toList ++ ']' :: '\n' :: rest) =
      some (⟨entries, [name]⟩, rest) := by
    rw [readHeader, hkey]
    simp [hopen, Text.strip?, endLine?, skipComment, skipBlanks, isLineBlank, afterBreak?]
  -- a second bracket would be a header of another kind
  obtain ⟨c, chars, hchars, hc⟩ := hname.exists_cons
  obtain ⟨-, -, -, hbracket, -⟩ := ne_of_isBareChar hc
  rw [hline, readLine, skipBlanks_cons rfl]
  rw [hchars, List.cons_append] at hheader ⊢
  split <;> simp_all
  next hnot heq => exact absurd heq.1.symm hnot

/-- A line without anything is passed over. -/
theorem iterate_lineFeed (hfound : iterate readLine d rest = some found) :
    iterate readLine d ('\n' :: rest) = some found := by
  have hpassed : readLine d (['\n'] ++ rest) = some (.more d rest) := rfl
  exact iterate_append hpassed (by simp) hfound

/-! ## Entries -/

/-- A name that is new comes last. -/
theorem put_new {item : Item} (h : name ∉ entries.map Prod.fst) :
    put name item entries = entries ++ [(name, item)] := by
  induction entries with
  | nil => rfl
  | cons entry entries ih =>
    rw [List.map_cons, List.mem_cons, not_or] at h
    rw [put, if_neg (Ne.symm h.1), ih h.2, List.cons_append]

/-- The last entry is replaced by one of the same name. -/
theorem put_last {old item : Item} (h : name ∉ entries.map Prod.fst) :
    put name item (entries ++ [(name, old)]) = entries ++ [(name, item)] := by
  induction entries with
  | nil => simp [put]
  | cons entry entries ih =>
    rw [List.map_cons, List.mem_cons, not_or] at h
    rw [List.cons_append, put, if_neg (Ne.symm h.1), ih h.2, List.cons_append]

theorem lookup_new (h : name ∉ entries.map Prod.fst) : entries.lookup name = none :=
  List.lookup_eq_none_iff.2 fun entry hentry => by
    simpa using fun heq : name = entry.1 => h (heq ▸ List.mem_map_of_mem hentry)

theorem lookup_last {item : Item} (h : name ∉ entries.map Prod.fst) :
    (entries ++ [(name, item)]).lookup name = some item := by
  simp [List.lookup_append, lookup_new h]

/-- A new name outside of all tables gets an entry of its own. -/
theorem insert?_outer (h : name ∉ entries.map Prod.fst) :
    Document.insert? ⟨entries, []⟩ [] name value =
      some ⟨entries ++ [(name, .value value)], []⟩ := by
  simp [Document.insert?, changeAt?, insertAt?, lookup_new h]

/-- So does a new name in the last table. -/
theorem insert?_inner {table : String} {inner : Entries} (htable : table ∉ entries.map Prod.fst)
    (h : name ∉ inner.map Prod.fst) :
    Document.insert? ⟨entries ++ [(table, .table .header inner)], [table]⟩ [] name value =
      some ⟨entries ++ [(table, .table .header (inner ++ [(name, .value value)]))], [table]⟩ := by
  simp [Document.insert?, changeAt?, insertAt?, lookup_last htable, lookup_new h, put_last htable]

/-- The header of a new table adds the table without entries. -/
theorem openTable?_new (h : name ∉ entries.map Prod.fst) :
    openTable? [] name entries = some (entries ++ [(name, .table .header [])]) := by
  simp [openTable?, changeAt?, lookup_new h, put_new h]

/-! ## Settings one after the other -/

/-- The entries of a table in the making that settings add. -/
def settingItems (settings : List (String × Setting)) : Entries :=
  settings.map fun (name, s) => (name, .value s.toValue)

/-- The tables in the making that settings add. -/
def tableItems (tables : List (String × List (String × Setting))) : Entries :=
  tables.map fun (name, inner) => (name, .table .header (settingItems inner))

/-- Names that need no quotes, each of them once. -/
structure AreNames (names : List String) : Prop where
  bare : ∀ name ∈ names, IsBare name
  nodup : names.Nodup

instance (names : List String) : Decidable (AreNames names) :=
  decidable_of_iff ((∀ name ∈ names, IsBare name) ∧ names.Nodup)
    ⟨fun h => ⟨h.1, h.2⟩, fun h => ⟨h.bare, h.nodup⟩⟩

theorem AreNames.sublist {names fewer : List String} (h : AreNames names)
    (hsublist : fewer.Sublist names) : AreNames fewer where
  bare name hname := h.bare name (hsublist.subset hname)
  nodup := h.nodup.sublist hsublist

/-- Settings that can be written: within a table, and outside of all, names need no quotes and
occur once. -/
structure Settings.Lawful (s : Settings) : Prop where
  outer : AreNames (s.outer.map Prod.fst ++ s.tables.map Prod.fst)
  tables : ∀ table ∈ s.tables, AreNames (table.2.map Prod.fst)

theorem map_fst_settingItems (settings : List (String × Setting)) :
    (settingItems settings).map Prod.fst = settings.map Prod.fst := by
  simp [settingItems]

/-- Lines of settings add one entry each, where the document is made of the entries that the lines
are added to. -/
theorem iterate_settingLines {settings : List (String × Setting)} (doc : Entries → Document)
    (before : Entries)
    (hinsert : ∀ {entries : Entries} {name value}, name ∉ entries.map Prod.fst →
      (doc entries).insert? [] name value = some (doc (entries ++ [(name, .value value)])))
    (hbare : ∀ name ∈ settings.map Prod.fst, IsBare name)
    (hnodup : (before.map Prod.fst ++ settings.map Prod.fst).Nodup)
    (hfound : iterate readLine (doc (before ++ settingItems settings)) rest = some found) :
    iterate readLine (doc before) (settingLines settings ++ rest) = some found := by
  induction settings generalizing before with
  | nil => simpa [settingItems, settingLines] using hfound
  | cons entry settings ih =>
    obtain ⟨name, setting⟩ := entry
    rw [List.map_cons, List.forall_mem_cons] at hbare
    have hnew : name ∉ before.map Prod.fst := fun hmem =>
      (List.nodup_append.1 hnodup).2.2 name hmem name List.mem_cons_self rfl
    have hrest : iterate readLine (doc (before ++ [(name, .value setting.toValue)]))
        (settingLines settings ++ rest) = some found :=
      ih _ hbare.2 (by simpa using hnodup) (by simpa [settingItems] using hfound)
    rw [settingLines, List.flatMap_cons, List.append_assoc]
    exact iterate_append (readLine_settingLine hbare.1 (hinsert hnew)) (by simp [settingLine]) hrest

/-- Tables add one entry each, with the entries that their lines add. -/
theorem iterate_tables {tables : List (String × List (String × Setting))} (d : Document)
    (houter : ∀ name ∈ tables.map Prod.fst, IsBare name)
    (hnodup : (d.entries.map Prod.fst ++ tables.map Prod.fst).Nodup)
    (hinner : ∀ table ∈ tables, AreNames (table.2.map Prod.fst)) :
    ∃ current, iterate readLine d (tables.flatMap fun (name, inner) =>
        '\n' :: (tableLine name ++ settingLines inner)) =
      some (⟨d.entries ++ tableItems tables, current⟩, []) := by
  -- by induction on the tables, behind the entries that were read before
  induction tables generalizing d with
  | nil => exact ⟨d.current, by simp [tableItems]; rfl⟩
  | cons table tables ih =>
    obtain ⟨name, inner⟩ := table
    rw [List.map_cons, List.forall_mem_cons] at houter
    rw [List.forall_mem_cons] at hinner
    have hnew : name ∉ d.entries.map Prod.fst := fun hmem =>
      (List.nodup_append.1 hnodup).2.2 name hmem name List.mem_cons_self rfl
    obtain ⟨current, hrest⟩ := ih
      ⟨d.entries ++ [(name, .table .header (settingItems inner))], [name]⟩
      houter.2 (by simpa using hnodup) hinner.2
    refine ⟨current, ?_⟩
    have hlines := iterate_settingLines
      (fun entries => ⟨d.entries ++ [(name, .table .header entries)], [name]⟩) []
      (insert?_inner hnew) hinner.1.bare hinner.1.nodup hrest
    have htable := iterate_append
      (readLine_tableLine (d := d) houter.1 (openTable?_new hnew)) (by simp [tableLine]) hlines
    simpa [tableItems] using iterate_lineFeed htable

/-! ## Documents -/

theorem entriesToValues_append (before after : Entries) :
    entriesToValues (before ++ after) = entriesToValues before ++ entriesToValues after := by
  induction before with
  | nil => rfl
  | cons entry before ih => rw [List.cons_append, entriesToValues, entriesToValues, ih,
      List.cons_append]

theorem entriesToValues_settingItems (settings : List (String × Setting)) :
    entriesToValues (settingItems settings) = settingEntries settings := by
  induction settings with
  | nil => rfl
  | cons entry settings ih => exact congrArg (_ :: ·) ih

theorem entriesToValues_tableItems (tables : List (String × List (String × Setting))) :
    entriesToValues (tableItems tables) =
      tables.map fun (name, inner) => (name, .table (settingEntries inner)) := by
  induction tables with
  | nil => rfl
  | cons table tables ih =>
    have hinner := entriesToValues_settingItems table.2
    rw [tableItems, List.map_cons, entriesToValues, Item.toValue, hinner]
    exact congrArg (_ :: ·) ih

/-- A document of settings starts with a name or with a line break, and not with a mark. -/
theorem dropMark_write {s : Settings} (h : s.Lawful) :
    dropMark s.write.toList = s.write.toList := by
  have hmark : ∀ c rest, s.write.toList = c :: rest → c ≠ '\uFEFF' := by
    obtain ⟨⟨hbare, -⟩, -⟩ := h
    rw [Settings.write, String.toList_ofList]
    rintro c rest hchars rfl
    match houter : s.outer, htables : s.tables with
    | [], [] => simp [houter, htables, settingLines] at hchars
    | [], table :: tables => simp [houter, htables, settingLines] at hchars
    | (name, setting) :: settings, _ =>
      obtain ⟨d, chars, hname, hd⟩ := IsBare.exists_cons (hbare name (by simp [houter]))
      simp only [houter, settingLines, settingLine, List.flatMap_cons, hname, List.cons_append,
        List.cons.injEq] at hchars
      rw [hchars.1] at hd
      exact absurd hd (by decide)
  unfold dropMark
  split
  · next hchars => exact absurd rfl (hmark _ _ hchars)
  · rfl

/-- A document of settings is read as the table that was written. -/
theorem readTable?_write {s : Settings} (h : s.Lawful) : readTable? s.write = some s.entries := by
  have hbare := List.forall_mem_append.1 h.outer.bare
  have houter := (List.nodup_append.1 h.outer.nodup).1
  obtain ⟨current, htables⟩ := iterate_tables ⟨settingItems s.outer, []⟩ hbare.2
    (by rw [map_fst_settingItems]; exact h.outer.nodup) h.tables
  have hread := iterate_settingLines (fun entries => ⟨entries, []⟩) [] insert?_outer hbare.1
    houter htables
  rw [readTable?, dropMark_write h, Settings.write, String.toList_ofList, hread, Option.map_some,
    Settings.entries, ← entriesToValues_settingItems, ← entriesToValues_tableItems,
    ← entriesToValues_append]

end Toml

end Thesaurus
