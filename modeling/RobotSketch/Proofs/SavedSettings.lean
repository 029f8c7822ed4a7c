import Mathlib.Data.List.Nodup
import RobotSketch.Config
import RobotSketch.Proofs.Disk
import RobotSketch.Proofs.Quoting

/-!
# Saved settings load back

A configuration file holds one line for each setting, with its key and its value. The lines of any
settings, in any order, are read one by one (`repeats_lines`), they make up the table of these
settings (`parse?_lines`), and the settings that have no line get their defaults
(`ofMembers?_entries`). The main statement is `saved_settings_load_back`.
-/
namespace RobotSketch

/-! ## Lines -/

namespace Toml

open Text (Reader)
open Text.Reader

variable {key value rest : List Char}

theorem skipSpaces_of_head? {cs : List Char} (h : ∀ c ∈ cs.head?, isSpace c = false) :
    skipSpaces cs = some ((), cs) := by
  have htaken : ∀ c ∈ ([] : List Char), isSpace c = true := List.forall_mem_nil _
  exact bind_eq (run_append htaken h)

theorem skipSpaces_space {cs : List Char} (h : ∀ c ∈ cs.head?, isSpace c = false) :
    skipSpaces (' ' :: cs) = some ((), cs) := by
  have htaken : ∀ c ∈ [' '], isSpace c = true := by simp; decide
  exact bind_eq (run_append htaken h)

/-- A character in a key without quotes has no other meaning. -/
theorem ne_of_isBare {c d : Char} (h : isBare c = true) (hd : isBare d = false) : c ≠ d := by
  rintro rfl
  exact absurd h (by simp [hd])

theorem isSpace_of_isBare {c : Char} (h : isBare c = true) : isSpace c = false := by
  simp [isSpace, ne_of_isBare h (d := ' ') rfl, ne_of_isBare h (d := '\t') rfl]

/-- The first character of a key. -/
theorem exists_cons_of_bare (hne : key ≠ []) (hbare : ∀ c ∈ key, isBare c = true) :
    ∃ c cs, key = c :: cs ∧ isBare c = true := by
  obtain ⟨c, cs, rfl⟩ := List.exists_cons_of_ne_nil hne
  exact ⟨c, cs, rfl, hbare c List.mem_cons_self⟩

theorem skip_of_isBare {c d : Char} {cs : List Char} (h : isBare c = true) (hd : isBare d = false) :
    skip [d] (c :: cs) = some (false, c :: cs) :=
  skip_of_not_isPrefix fun hpre => ne_of_isBare h hd (List.cons_prefix_cons.1 hpre).1.symm

theorem readKeyPart_append (hne : key ≠ []) (hbare : ∀ c ∈ key, isBare c = true)
    (hrest : ∀ c ∈ rest.head?, isBare c = false) :
    readKeyPart (key ++ rest) = some (String.ofList key, rest) := by
  obtain ⟨c, cs, rfl, hc⟩ := exists_cons_of_bare hne hbare
  rw [readKeyPart, List.cons_append, bind_eq (skip_of_isBare hc (by decide)),
    if_neg Bool.false_ne_true, bind_eq (skip_of_isBare hc (by decide)), if_neg Bool.false_ne_true,
    ← List.cons_append]
  have hrun : run1 isBare ((c :: cs) ++ rest) = some (c :: cs, rest) := by
    rw [run1, bind_eq (run_append hbare hrest)]
    rfl
  exact bind_eq hrun

/-- A key of one part is read up to the equals sign. -/
theorem readKey_append (hne : key ≠ []) (hbare : ∀ c ∈ key, isBare c = true) :
    readKey (key ++ ' ' :: '=' :: rest) = some (([], String.ofList key), '=' :: rest) := by
  have hstart : skipSpaces (key ++ ' ' :: '=' :: rest) = some ((), key ++ ' ' :: '=' :: rest) := by
    obtain ⟨c, cs, rfl, hc⟩ := exists_cons_of_bare hne hbare
    refine skipSpaces_of_head? ?_
    rintro _ ⟨⟩
    exact isSpace_of_isBare hc
  have hpart : readKeyPart (key ++ ' ' :: '=' :: rest) =
      some (String.ofList key, ' ' :: '=' :: rest) :=
    readKeyPart_append hne hbare (by rintro _ ⟨⟩; decide)
  have hspace : skipSpaces (' ' :: '=' :: rest) = some ((), '=' :: rest) :=
    skipSpaces_space (by rintro _ ⟨⟩; decide)
  have hmore : many readNextPart ('=' :: rest) = some ([], '=' :: rest) := by
    refine Repeats.many_eq (.stop ?_)
    rw [readNextPart, bind_eq (skip_of_not_isPrefix (by simp))]
    rfl
  rw [readKey, bind_eq hstart, bind_eq hpart, bind_eq hspace, bind_eq hmore]
  rfl

theorem readLine_of_readStatement {cs : List Char} {line : Option Line}
    (h : readStatement cs = some (line, '\n' :: rest)) : readLine cs = some (line, rest) := by
  have hspaces : skipSpaces ('\n' :: rest) = some ((), '\n' :: rest) :=
    skipSpaces_of_head? (by rintro _ ⟨⟩; decide)
  rw [readLine, bind_eq h, bind_eq hspaces]
  rfl

/-- A line that begins with a bare key is an entry. -/
theorem readStatement_of_isBare {c : Char} (hc : isBare c = true) (cs : List Char) :
    readStatement (c :: cs) = (readEntry (readValue nesting) >>= fun (path, key, item) =>
      pure (some (Line.entry path key item))) (c :: cs) := by
  have hspaces : skipSpaces (c :: cs) = some ((), c :: cs) :=
    skipSpaces_of_head? (by rintro _ ⟨⟩; exact isSpace_of_isBare hc)
  rw [readStatement, bind_eq hspaces, bind_eq (peek_cons ..)]
  generalize hfirst : some c = first
  -- Lines of every other kind begin with a character that no bare key has.
  split
  case h_6 => rfl
  all_goals
    cases hfirst
    try cases hc

/-- A line with a key and a value is read as an entry. -/
theorem readNextLine_entry {item : Item} (hne : key ≠ []) (hbare : ∀ c ∈ key, isBare c = true)
    (hhead : ∀ c ∈ value.head?, isSpace c = false)
    (hvalue : readValue nesting (value ++ '\n' :: rest) = some (item, '\n' :: rest)) :
    readNextLine (key ++ ' ' :: '=' :: ' ' :: (value ++ '\n' :: rest)) =
      some (some (some (.entry [] (String.ofList key) item)), rest) := by
  have hspace : skipSpaces (' ' :: (value ++ '\n' :: rest)) = some ((), value ++ '\n' :: rest) := by
    refine skipSpaces_space fun c hc => ?_
    cases value with
    | nil => cases hc; decide
    | cons d value => exact hhead c hc
  have hentry :
      readEntry (readValue nesting) (key ++ ' ' :: '=' :: ' ' :: (value ++ '\n' :: rest)) =
        some (([], String.ofList key, item), '\n' :: rest) := by
    rw [readEntry, bind_eq (readKey_append hne hbare)]
    refine (bind_eq (word_append ['='])).trans ?_
    rw [bind_eq hspace, bind_eq hvalue]
    rfl
  obtain ⟨c, cs, rfl, hc⟩ := exists_cons_of_bare hne hbare
  have hstatement := (readStatement_of_isBare hc _).trans (bind_eq hentry)
  rw [readNextLine, List.cons_append, bind_eq (atEnd_cons ..), if_neg Bool.false_ne_true]
  exact bind_eq (readLine_of_readStatement hstatement)

/-! ## Values -/

/-- A text is read back from its string. -/
theorem readValue_quoted (text : String) (rest : List Char) :
    readValue nesting ((quoted text).toList ++ '\n' :: rest) =
      some (.string text, '\n' :: rest) := by
  obtain ⟨quote, hquote, hhead, hstring⟩ := readString_quoted text
  have hpeek : peek ((quoted text).toList ++ '\n' :: rest) =
      some (some quote, (quoted text).toList ++ '\n' :: rest) := by
    rw [peek, List.head?_append, hhead, Option.some_or]
  unfold readValue
  rw [bind_eq hpeek]
  rcases hquote with rfl | rfl <;>
    exact (bind_eq (hstring _ (by simp))).trans (by rw [String.ofList_toList]; rfl)

/-- A truth value is read back from its word. -/
theorem readValue_bool (value : Bool) (rest : List Char) :
    readValue nesting ((if value then "true" else "false").toList ++ '\n' :: rest) =
      some (.bool value, '\n' :: rest) := by
  have hscalar : readScalar ((if value then "true" else "false").toList ++ '\n' :: rest) =
      some (.bool value, '\n' :: rest) := by
    have hword : run1 isWordChar ((if value then "true" else "false").toList ++ '\n' :: rest) =
        some ((if value then "true" else "false").toList, '\n' :: rest) := by
      have hchars : (if value then "true" else "false").toList.all isWordChar = true := by
        cases value <;> decide
      rw [run1, bind_eq (run_append (List.all_eq_true.1 hchars) (by rintro _ ⟨⟩; decide))]
      cases value <;> rfl
    rw [readScalar, bind_eq hword]
    cases value <;> rfl
  unfold readValue
  cases value <;> exact hscalar

/-! ## Tables -/

theorem add_entry {members : Members} {key : String} (h : members.lookup key = none) (item : Item) :
    Draft.add ⟨members, []⟩ (.entry [] key item) = some ⟨members ++ [(key, item)], []⟩ := by
  simp [Draft.add, Draft.change, descend, addEntry, h]

/-- Entries with different keys make up a table of them. -/
theorem foldlM_add_entries {entries members : Members}
    (h : ((members ++ entries).map Prod.fst).Nodup) :
    (entries.map fun entry => Line.entry [] entry.1 entry.2).foldlM Draft.add ⟨members, []⟩ =
      some ⟨members ++ entries, []⟩ := by
  -- Each line adds its entry behind those of the lines before it.
  induction entries generalizing members with
  | nil => simp
  | cons entry entries ih =>
    have hlookup : members.lookup entry.1 = none := by
      simp only [List.map_append, List.map_cons, List.nodup_append] at h
      rw [List.lookup_eq_none_iff]
      intro member hmember
      simpa using fun heq => h.2.2 _ (List.mem_map_of_mem hmember) _ List.mem_cons_self heq.symm
    have hrest : ((members ++ [entry] ++ entries).map Prod.fst).Nodup := by
      rwa [List.append_assoc]
    rw [List.map_cons, List.foldlM_cons, add_entry hlookup, Option.bind_eq_bind, Option.bind_some,
      ih hrest, List.append_assoc]
    rfl

theorem membersOf_entries {entries : Members} (h : (entries.map Prod.fst).Nodup) :
    membersOf (entries.map fun entry => .entry [] entry.1 entry.2) = some entries := by
  have hlines : (entries.map fun entry => Line.entry [] entry.1 entry.2).foldlM Draft.add {} =
      some ⟨entries, []⟩ := foldlM_add_entries h
  rw [membersOf, hlines]
  rfl

end Toml

/-! ## Settings -/

/-- The settings that a configuration file has a line for. -/
inductive Setting where
  | outputDirectory
  | expressions
  | onMissing
  | sketchFolders
  deriving DecidableEq, Repr

namespace Setting

/-- All settings, in the order in which they are saved. -/
def all : List Setting := [outputDirectory, expressions, onMissing, sketchFolders]

def key : Setting → String
  | outputDirectory => "output_dir"
  | expressions => "expressions_dir"
  | onMissing => "on_missing"
  | sketchFolders => "sketch_folders"

/-- What stands for a setting in a table. -/
def item (config : Config) : Setting → Toml.Item
  | outputDirectory => .string config.outputDirectory.text
  | expressions => .string config.expressions.text
  | onMissing => .string config.onMissing.word
  | sketchFolders => .bool config.sketchFolders

/-- The text of a setting in a configuration file. -/
def value (config : Config) : Setting → String
  | outputDirectory => Toml.quoted config.outputDirectory.text
  | expressions => Toml.quoted config.expressions.text
  | onMissing => Toml.quoted config.onMissing.word
  | sketchFolders => if config.sketchFolders then "true" else "false"

def line (config : Config) (setting : Setting) : String :=
  setting.key ++ (" = " ++ (setting.value config ++ "\n"))

theorem key_inj {first second : Setting} (h : first.key = second.key) : first = second := by
  cases first <;> cases second <;> first | rfl | exact absurd h (by decide)

theorem toList_line (config : Config) (setting : Setting) (rest : List Char) :
    (setting.line config).toList ++ rest = setting.key.toList ++
      ' ' :: '=' :: ' ' :: ((setting.value config).toList ++ '\n' :: rest) := by
  simp [line]

theorem readValue_value (config : Config) (setting : Setting) (rest : List Char) :
    Toml.readValue Toml.nesting ((setting.value config).toList ++ '\n' :: rest) =
      some (setting.item config, '\n' :: rest) := by
  cases setting with
  | outputDirectory => exact Toml.readValue_quoted _ rest
  | expressions => exact Toml.readValue_quoted _ rest
  | onMissing => exact Toml.readValue_quoted _ rest
  | sketchFolders => exact Toml.readValue_bool _ rest

theorem isSpace_head?_value (config : Config) (setting : Setting) :
    ∀ c ∈ (setting.value config).toList.head?, Toml.isSpace c = false := by
  have hquoted (text : String) : ∀ c ∈ (Toml.quoted text).toList.head?, Toml.isSpace c = false := by
    obtain ⟨quote, hquote, hhead, -⟩ := Toml.readString_quoted text
    intro c hc
    rw [hhead] at hc
    cases hc
    rcases hquote with rfl | rfl <;> decide
  cases setting with
  | outputDirectory => exact hquoted _
  | expressions => exact hquoted _
  | onMissing => exact hquoted _
  | sketchFolders => cases h : config.sketchFolders <;> simp [value, h] <;> decide

theorem line_ne_nil (config : Config) (setting : Setting) : (setting.line config).toList ≠ [] := by
  have hline := setting.toList_line config []
  rw [List.append_nil] at hline
  simp [hline]

theorem key_ne_nil (setting : Setting) : setting.key.toList ≠ [] := by
  cases setting <;> decide

theorem isBare_of_mem_key {setting : Setting} {c : Char} (h : c ∈ setting.key.toList) :
    Toml.isBare c = true := by
  have hall : setting.key.toList.all Toml.isBare = true := by cases setting <;> decide
  exact List.all_eq_true.1 hall c h

/-- The line of a setting is read as its entry. -/
theorem readNextLine_line (config : Config) (setting : Setting) (rest : List Char) :
    Toml.readNextLine ((setting.line config).toList ++ rest) =
      some (some (some (.entry [] setting.key (setting.item config))), rest) := by
  rw [toList_line, Toml.readNextLine_entry setting.key_ne_nil (fun _ => isBare_of_mem_key)
    (setting.isSpace_head?_value config) (setting.readValue_value config rest),
    String.ofList_toList]

end Setting

namespace FaultyDisk

variable {α β : Type} {faulty later : FaultyDisk}

theorem bind_eq {first : StateM FaultyDisk α} {follow : α → StateM FaultyDisk β} {value : α}
    (h : first faulty = (value, later)) : (first >>= follow) faulty = follow value later := by
  have hbind : (first >>= follow) faulty = follow (first faulty).1 (first faulty).2 := rfl
  rw [hbind, h]

/-- A program goes on from what its first part comes to. -/
theorem exists_of_bind {first : StateM FaultyDisk α} {follow : α → StateM FaultyDisk β}
    {found : β × FaultyDisk} (h : (first >>= follow) faulty = found) :
    ∃ value ready, follow value ready = found :=
  ⟨_, _, h⟩

end FaultyDisk

namespace Config

open Text.Reader (bind_eq)

def lines (config : Config) (settings : List Setting) : String :=
  String.join (settings.map (Setting.line config))

/-- The table of some settings. -/
def entries (config : Config) (settings : List Setting) : Toml.Members :=
  settings.map fun setting => (setting.key, setting.item config)

/-- Some settings, and the defaults of the others. -/
def only (config : Config) (settings : List Setting) : Config :=
  let default : Config := {}
  { outputDirectory :=
      if .outputDirectory ∈ settings then config.outputDirectory else default.outputDirectory
    expressions := if .expressions ∈ settings then config.expressions else default.expressions
    onMissing := if .onMissing ∈ settings then config.onMissing else default.onMissing
    sketchFolders :=
      if .sketchFolders ∈ settings then config.sketchFolders else default.sketchFolders }

theorem only_all (config : Config) : config.only Setting.all = config := rfl

theorem render_eq_lines (config : Config) : config.render = config.lines Setting.all := by
  have hrender : config.render =
      ("output_dir = " ++ Toml.quoted config.outputDirectory.text ++ "\n") ++
        ("expressions_dir = " ++ Toml.quoted config.expressions.text ++ "\n") ++
        ("on_missing = " ++ Toml.quoted config.onMissing.word ++ "\n") ++
        ("sketch_folders = " ++ (if config.sketchFolders then "true" else "false") ++ "\n") := rfl
  have houtput : "output_dir = " = "output_dir" ++ " = " := by decide
  have hexpressions : "expressions_dir = " = "expressions_dir" ++ " = " := by decide
  have hmissing : "on_missing = " = "on_missing" ++ " = " := by decide
  have hfolders : "sketch_folders = " = "sketch_folders" ++ " = " := by decide
  rw [hrender, houtput, hexpressions, hmissing, hfolders]
  simp only [lines, Setting.all, Setting.line, Setting.key, Setting.value, List.map_cons,
    List.map_nil, String.join_cons, String.join_nil, String.append_assoc, String.append_empty]

theorem toList_lines_cons (config : Config) (setting : Setting) (settings : List Setting) :
    (config.lines (setting :: settings)).toList =
      (setting.line config).toList ++ (config.lines settings).toList := by
  simp [lines]

/-- The lines of settings are read one by one. -/
theorem repeats_lines (config : Config) (settings : List Setting) :
    Text.Reader.Repeats Toml.readNextLine (config.lines settings).toList
      (settings.map fun setting => some (.entry [] setting.key (setting.item config))) [] := by
  induction settings with
  | nil => exact .stop rfl
  | cons setting settings ih =>
    rw [toList_lines_cons]
    refine .more (setting.readNextLine_line config _) ?_ ih
    rw [List.length_append]
    exact Nat.lt_add_of_pos_left (List.length_pos_iff.2 (setting.line_ne_nil config))

/-- The start of a line is no byte-order mark. -/
theorem skip_mark (config : Config) (settings : List Setting) :
    Text.Reader.skip [Char.ofNat 0xFEFF] (config.lines settings).toList =
      some (false, (config.lines settings).toList) := by
  refine Text.Reader.skip_of_not_isPrefix fun hpre => ?_
  cases settings with
  | nil => cases hpre.length_le
  | cons setting settings =>
    rw [toList_lines_cons, Setting.toList_line] at hpre
    cases setting <;> exact absurd (List.cons_prefix_cons.1 hpre).1 (by decide)

theorem nodup_keys {settings : List Setting} (h : settings.Nodup) (config : Config) :
    ((config.entries settings).map Prod.fst).Nodup := by
  rw [entries, List.map_map]
  exact List.Nodup.map (fun _ _ => Setting.key_inj) h

/-- The lines of settings stand for the table of them. -/
theorem parse?_lines {settings : List Setting} (h : settings.Nodup) (config : Config) :
    Toml.parse? (config.lines settings) = some (config.entries settings) := by
  have hwhole : Text.Reader.whole (do
      let _ ← Text.Reader.skip [Char.ofNat 0xFEFF]
      Text.Reader.many Toml.readNextLine) (config.lines settings).toList =
        some (settings.map fun setting => some (.entry [] setting.key (setting.item config))) := by
    rw [Text.Reader.whole, bind_eq (config.skip_mark settings),
      (config.repeats_lines settings).many_eq]
  have hlines : (settings.map fun setting =>
      some (Toml.Line.entry [] setting.key (setting.item config))).filterMap id =
        (config.entries settings).map fun entry => .entry [] entry.1 entry.2 := by
    simp [entries, List.filterMap_map]
  rw [Toml.parse?, hwhole, Option.bind_eq_bind, Option.bind_some, hlines]
  exact Toml.membersOf_entries (nodup_keys h config)

theorem lookup_entries (config : Config) (settings : List Setting) (setting : Setting) :
    (config.entries settings).lookup setting.key =
      if setting ∈ settings then some (setting.item config) else none := by
  induction settings with
  | nil => rfl
  | cons first settings ih =>
    have hcons : config.entries (first :: settings) =
        (first.key, first.item config) :: config.entries settings := rfl
    rw [hcons, List.lookup_cons]
    by_cases heq : setting = first
    · subst heq
      simp
    · have hkey : (setting.key == first.key) = false := by
        simpa using fun h => heq (Setting.key_inj h)
      simp [hkey, ih, heq]

/-- The table of some settings stands for them and the defaults of the others. -/
theorem ofMembers?_entries (config : Config) (settings : List Setting) :
    ofMembers? (config.entries settings) = some (config.only settings) := by
  have hsetting {α : Type} (setting : Setting) (read : Toml.Item → Option α) (value default : α)
      (hread : read (setting.item config) = some value) :
      setting? (config.entries settings) setting.key read default =
        some (if setting ∈ settings then value else default) := by
    unfold setting?
    rw [lookup_entries]
    by_cases hmem : setting ∈ settings
    · simp [hmem, hread]
    · simp [hmem]
  have hpolicy : policyOf? (Setting.onMissing.item config) = some config.onMissing := by
    unfold Setting.item
    cases config.onMissing <;> rfl
  have houtput := hsetting .outputDirectory pathOf? config.outputDirectory ⟨"."⟩ rfl
  have hexpressions := hsetting .expressions pathOf? config.expressions ⟨"expressions"⟩ rfl
  have hmissing := hsetting .onMissing policyOf? config.onMissing .prompt hpolicy
  have hfolders := hsetting .sketchFolders flagOf? config.sketchFolders true rfl
  simp only [Setting.key] at houtput hexpressions hmissing hfolders
  simp [ofMembers?, only, houtput, hexpressions, hmissing, hfolders]

/-! ## Files -/

/-- What was saved is on the disk. -/
theorem stored_of_save {config : Config} {path : Path} {faulty later : FaultyDisk}
    (h : (config.save path : StateM FaultyDisk _) faulty = (.ok (), later)) :
    later.disk path.normalize = some (.file config.render.toUTF8) := by
  unfold save at h
  obtain ⟨made, ready, h⟩ := FaultyDisk.exists_of_bind h
  cases made with
  | error fault => cases h
  | ok made =>
    obtain ⟨result, disk, happly, hwrite⟩ := ready.runs_perform (.write path config.render)
    have hruns := hwrite.map fun written => written.mapError (ConfigError.unwritable path)
    obtain ⟨hresult, rfl⟩ := Prod.mk.inj (hruns.symm.trans h)
    obtain ⟨-, rfl⟩ | ⟨fault, rfl, -⟩ := Disk.write_cases happly
    · exact Function.update_self ..
    · cases hresult

/-- Settings are loaded from a file that holds the text of them. -/
theorem load_of_stored {config : Config} {path : Path} {text : String} {faulty : FaultyDisk}
    (hstored : faulty.disk path.normalize = some (.file text.toUTF8))
    (htext : parse? text = some config) (describe : String → String) (environment : Environment) :
    (load describe environment path : StateM FaultyDisk _) faulty =
      (.ok (some (config.overridden environment)), faulty) := by
  have hentry : (Files.hasEntry path : StateM FaultyDisk Bool) faulty = (true, faulty) := by
    have heq : (Files.hasEntry path : StateM FaultyDisk Bool) faulty =
        ((faulty.disk path.normalize).isSome, faulty) := rfl
    rw [heq, hstored]
    rfl
  have hread : (Files.read path : StateM FaultyDisk _) faulty = (.ok text, faulty) := by
    have hdecoded : String.fromUTF8? text.toUTF8 = some text := dif_pos text.isValidUTF8
    have hget : (get : StateM FaultyDisk FaultyDisk) faulty = (faulty, faulty) := rfl
    refine (FaultyDisk.bind_eq hget).trans ?_
    simp only [hstored, hdecoded]
    rfl
  rw [load, FaultyDisk.bind_eq hentry, if_pos rfl, FaultyDisk.bind_eq hread]
  simp only [htext]
  rfl

/-- **Saved settings load back.** The text of any settings stands for these settings, and so does a
file in which they were saved. The text has one line for each setting, and any of these lines, in
any order, stand for their settings and the defaults of the others. -/
theorem saved_settings_load_back (config : Config) :
    parse? config.render = some config ∧ config.render = config.lines Setting.all ∧
      (∀ settings : List Setting, settings.Nodup →
        parse? (config.lines settings) = some (config.only settings)) ∧
      ∀ (path : Path) (faulty later : FaultyDisk),
        (config.save path : StateM FaultyDisk _) faulty = (.ok (), later) →
        later.disk path.normalize = some (.file config.render.toUTF8) ∧
          ∀ describe environment, (load describe environment path : StateM FaultyDisk _) later =
            (.ok (some (config.overridden environment)), later) := by
  have hlines {settings : List Setting} (h : settings.Nodup) :
      parse? (config.lines settings) = some (config.only settings) := by
    rw [parse?, parse?_lines h, Option.bind_eq_bind, Option.bind_some, ofMembers?_entries]
  have hrender : parse? config.render = some config := by
    rw [render_eq_lines, hlines (by decide), only_all]
  refine ⟨hrender, config.render_eq_lines, fun _ => hlines, fun path faulty later hsave => ?_⟩
  have hstored := stored_of_save hsave
  exact ⟨hstored, load_of_stored hstored hrender⟩

/-- Paths with quotes, backslashes and control characters, saved on an empty disk; the text has two
of the lines. -/
theorem odd_paths_load_back :
    let config : Config :=
      { outputDirectory := ⟨"a\"b'\\c"⟩
        expressions := ⟨"'''\n\"\"\"\"\x1b\t"⟩
        onMissing := .skip
        sketchFolders := false }
    let settings : List Setting := [.onMissing, .expressions]
    let saved := (config.save ⟨"c.toml"⟩ : StateM FaultyDisk _) ⟨{}, fun _ => none, []⟩
    settings.Nodup ∧ saved.1 = .ok () ∧ parse? config.render = some config ∧
      parse? (config.lines settings) =
        some { expressions := config.expressions, onMissing := .skip } ∧
      ((load id (fun _ => none) ⟨"c.toml"⟩ : StateM FaultyDisk _) saved.2).1 =
        .ok (some config) := by
  intro config settings saved
  obtain ⟨hrender, -, hlines, hfiles⟩ := saved_settings_load_back config
  have hsaved : saved.1 = .ok () := rfl
  obtain ⟨-, hload⟩ := hfiles ⟨"c.toml"⟩ ⟨{}, fun _ => none, []⟩ saved.2 (Prod.ext hsaved rfl)
  refine ⟨by decide, hsaved, hrender, hlines settings (by decide), ?_⟩
  rw [hload]
  rfl

end Config

end RobotSketch
