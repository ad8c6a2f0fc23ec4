import Historian.Proofs.Log.Archive

/-!
# Loading the logs of a configuration

The entries of a configuration are offered to an archive one after another.  Whether one is taken
depends on all entries before it, since it needs a number of its own and room in the archive; the
other reasons for which it may be refused lie in the entry itself (`Archive.Refuses`).

An archive only grows while entries are loaded, and a larger archive refuses what a smaller one
does (`Archive.Refuses.mono`).  An entry that has been taken is refused from then on, because its
number is in use.  So in the end every entry of the list is refused
(`Archive.refuses_of_mem_load`), and to load the list again changes nothing.
-/

namespace Historian.Archive

variable {Entry : Type} {parse : Entry → Option LogConfig}

/-! ## Entries that are refused -/

/-- An archive does not take an entry: it cannot be read, its buffer has no permitted size, there
is a log with its number, or there is no room. -/
inductive Refuses (parse : Entry → Option LogConfig) (archive : Archive) (entry : Entry) :
    Prop where
  | unreadable (unread : parse entry = none)
  | bufferSize {config : LogConfig} (read : parse entry = some config)
      (size : config.bufferSize = 0 ∨ 10000 < config.bufferSize)
  | duplicate {config : LogConfig} (read : parse entry = some config)
      (known : config.number ∈ archive.logs.map TrendLog.number)
  | full (room : 50 ≤ archive.logs.length)

/-- An entry is taken unless it is refused. -/
theorem refuses_or_adds (parse : Entry → Option LogConfig) (archive : Archive) (entry : Entry) :
    Refuses parse archive entry ∨ ∃ config, parse entry = some config ∧
      archive.add config = .ok ⟨archive.logs ++ [TrendLog.ofConfig config]⟩ := by
  cases hread : parse entry with
  | none => exact .inl (.unreadable hread)
  | some config =>
      by_cases hroom : 50 ≤ archive.logs.length
      · exact .inl (.full hroom)
      by_cases hsize : config.bufferSize = 0 ∨ 10000 < config.bufferSize
      · exact .inl (.bufferSize hread hsize)
      by_cases hknown : config.number ∈ archive.logs.map TrendLog.number
      · exact .inl (.duplicate hread hknown)
      · obtain ⟨hsome, hle⟩ := not_or.mp hsize
        exact .inr ⟨config, rfl, add_eq_ok_iff.mpr
          ⟨⟨Nat.lt_of_not_le hroom, hsome, UInt32.not_lt.mp hle, hknown⟩, rfl⟩⟩

theorem Refuses.not_adds {archive added : Archive} {entry : Entry} {config : LogConfig}
    (hrefuses : Refuses parse archive entry) (hread : parse entry = some config) :
    archive.add config ≠ .ok added := by
  intro hadd
  obtain ⟨⟨hroom, hsome, hle, hfresh⟩, -⟩ := add_eq_ok_iff.mp hadd
  cases hrefuses with
  | unreadable hunread => simp [hunread] at hread
  | bufferSize hother hsize =>
      obtain rfl := Option.some.inj (hother.symm.trans hread)
      rcases hsize with hzero | hlarge
      · exact hsome hzero
      · exact UInt32.not_lt.mpr hle hlarge
  | duplicate hother hknown =>
      obtain rfl := Option.some.inj (hother.symm.trans hread)
      exact hfresh hknown
  | full hfull => exact Nat.not_le_of_lt hroom hfull

/-- What an archive refuses it also refuses with more logs. -/
theorem Refuses.mono {archive larger : Archive} {entry : Entry}
    (hrefuses : Refuses parse archive entry) (hlarger : archive.logs <+: larger.logs) :
    Refuses parse larger entry := by
  cases hrefuses with
  | unreadable hunread => exact .unreadable hunread
  | bufferSize hread hsize => exact .bufferSize hread hsize
  | duplicate hread hknown => exact .duplicate hread ((hlarger.map _).subset hknown)
  | full hfull => exact .full (Nat.le_trans hfull hlarger.length_le)

/-! ## One entry -/

theorem load_cons_of_refuses {archive : Archive} {entry : Entry}
    (hrefuses : Refuses parse archive entry) (rest : List Entry) :
    load parse archive (entry :: rest) = load parse archive rest := by
  rw [load]
  split
  · rename_i added hadded
    obtain ⟨config, hread, hadd⟩ := Option.map_eq_some_iff.mp hadded
    exact absurd hadd (hrefuses.not_adds hread)
  · rfl

theorem load_cons_of_adds {archive added : Archive} {entry : Entry} {config : LogConfig}
    (hread : parse entry = some config) (hadd : archive.add config = .ok added)
    (rest : List Entry) :
    load parse archive (entry :: rest) =
      ((load parse added rest).1, (load parse added rest).2 + 1) := by
  rw [load, hread, Option.map_some, hadd]

/-! ## Lists of entries -/

theorem load_append (archive : Archive) (front back : List Entry) :
    load parse archive (front ++ back) =
      ((load parse (load parse archive front).1 back).1,
        (load parse archive front).2 + (load parse (load parse archive front).1 back).2) := by
  induction front generalizing archive with
  | nil => simp [load]
  | cons entry rest ih =>
      rw [List.cons_append]
      rcases refuses_or_adds parse archive entry with hrefuses | ⟨config, hread, hadd⟩
      · rw [load_cons_of_refuses hrefuses, load_cons_of_refuses hrefuses, ih]
      · rw [load_cons_of_adds hread hadd, load_cons_of_adds hread hadd, ih]
        simp only [Prod.mk.injEq, true_and]
        omega

/-- **Loading puts the logs of some entries behind those that are there**, and counts them. -/
theorem exists_logs_load (parse : Entry → Option LogConfig) (archive : Archive)
    (entries : List Entry) :
    ∃ configs : List LogConfig, configs.Sublist (entries.filterMap parse) ∧
      (load parse archive entries).1.logs = archive.logs ++ configs.map TrendLog.ofConfig ∧
      (load parse archive entries).2 = configs.length := by
  induction entries generalizing archive with
  | nil => exact ⟨[], .slnil, by simp [load]⟩
  | cons entry rest ih =>
      rcases refuses_or_adds parse archive entry with hrefuses | ⟨config, hread, hadd⟩
      · obtain ⟨configs, hsome, hlogs⟩ := ih archive
        rw [load_cons_of_refuses hrefuses]
        refine ⟨configs, hsome.trans ?_, hlogs⟩
        exact (List.sublist_cons_self entry rest).filterMap parse
      · obtain ⟨configs, hsome, hlogs, hcount⟩ :=
          ih ⟨archive.logs ++ [TrendLog.ofConfig config]⟩
        rw [load_cons_of_adds hread hadd, List.filterMap_cons_some hread]
        exact ⟨config :: configs, hsome.cons_cons config, by simp [hlogs], by simp [hcount]⟩

theorem prefix_load (archive : Archive) (entries : List Entry) :
    archive.logs <+: (load parse archive entries).1.logs := by
  obtain ⟨configs, -, hlogs, -⟩ := exists_logs_load parse archive entries
  exact ⟨_, hlogs.symm⟩

/-- **Every entry is refused once the list has been loaded.** -/
theorem refuses_of_mem_load {archive : Archive} {entries : List Entry} {entry : Entry}
    (hentry : entry ∈ entries) : Refuses parse (load parse archive entries).1 entry := by
  induction entries generalizing archive with
  | nil => exact absurd hentry List.not_mem_nil
  | cons first rest ih =>
      rcases refuses_or_adds parse archive first with hrefuses | ⟨config, hread, hadd⟩
      · rw [load_cons_of_refuses hrefuses]
        rcases List.mem_cons.mp hentry with rfl | hrest
        · exact hrefuses.mono (prefix_load archive rest)
        · exact ih hrest
      · rw [load_cons_of_adds hread hadd]
        rcases List.mem_cons.mp hentry with rfl | hrest
        · -- Its own log stands in its way now.
          have hown : Refuses parse ⟨archive.logs ++ [TrendLog.ofConfig config]⟩ entry :=
            .duplicate hread (by simp [TrendLog.ofConfig, TrendLog.number])
          exact hown.mono (prefix_load _ rest)
        · exact ih hrest

theorem load_of_refuses {archive : Archive} {entries : List Entry}
    (hrefuses : ∀ entry ∈ entries, Refuses parse archive entry) :
    load parse archive entries = (archive, 0) := by
  induction entries with
  | nil => rfl
  | cons entry rest ih =>
      obtain ⟨hentry, hrest⟩ := List.forall_mem_cons.mp hrefuses
      rw [load_cons_of_refuses hentry, ih hrest]

/-- Only an entry that is refused makes no difference. -/
theorem load_concat_eq_iff (archive : Archive) (front : List Entry) (entry : Entry) :
    load parse archive (front ++ [entry]) = load parse archive front ↔
      Refuses parse (load parse archive front).1 entry := by
  rw [load_append]
  rcases refuses_or_adds parse (load parse archive front).1 entry with
    hrefuses | ⟨config, hread, hadd⟩
  · rw [load_cons_of_refuses hrefuses]
    exact iff_of_true rfl hrefuses
  · refine iff_of_false (fun hsame => ?_) fun hrefuses => hrefuses.not_adds hread hadd
    have hcount := congrArg Prod.snd hsame
    rw [load_cons_of_adds hread hadd] at hcount
    simp only at hcount
    omega

/-- **Loading is idempotent, and entries that are refused are inert.**  The logs that are there
stay as they are; behind them come those of the entries that are taken, and their number is
returned.  The same list, loaded again, adds nothing.  An entry is refused at its place exactly if
it makes no difference there, and then it can be left out of the list. -/
theorem load_idempotent (parse : Entry → Option LogConfig) (archive : Archive)
    (entries : List Entry) :
    (∃ configs : List LogConfig, configs.Sublist (entries.filterMap parse) ∧
        (load parse archive entries).1.logs = archive.logs ++ configs.map TrendLog.ofConfig ∧
        (load parse archive entries).2 = configs.length) ∧
      load parse (load parse archive entries).1 entries = ((load parse archive entries).1, 0) ∧
      ∀ front entry back, entries = front ++ entry :: back →
        (load parse archive (front ++ [entry]) = load parse archive front ↔
          Refuses parse (load parse archive front).1 entry) ∧
        (Refuses parse (load parse archive front).1 entry →
          load parse archive (front ++ back) = load parse archive entries) := by
  refine ⟨exists_logs_load parse archive entries,
    load_of_refuses fun entry hentry => refuses_of_mem_load hentry, ?_⟩
  rintro front entry back rfl
  refine ⟨load_concat_eq_iff archive front entry, fun hrefuses => ?_⟩
  rw [load_append, load_append, load_cons_of_refuses hrefuses]

/-- An entry with the number of the first one, between one that cannot be read, one with too large
a buffer and one that is taken. -/
theorem load_idempotent_duplicate :
    let front := [some (LogConfig.of 1 "first"), none]
    let entry := some (LogConfig.of 1 "again")
    let back := [some { LogConfig.of 2 "large" with bufferSize := 20000 },
      some (LogConfig.of 3 "last")]
    Refuses id (load id empty front).1 entry ∧
      load id empty (front ++ back) = load id empty (front ++ entry :: back) ∧
      (load id empty (front ++ entry :: back)).2 = 2 ∧
      (load id (load id empty (front ++ entry :: back)).1 (front ++ entry :: back)).2 = 0 := by
  intro front entry back
  obtain ⟨-, hagain, hentries⟩ := load_idempotent id empty (front ++ entry :: back)
  have hrefuses : Refuses id (load id empty front).1 entry := .duplicate rfl (by decide)
  exact ⟨hrefuses, (hentries front entry back rfl).2 hrefuses, by decide, by rw [hagain]⟩

end Historian.Archive
