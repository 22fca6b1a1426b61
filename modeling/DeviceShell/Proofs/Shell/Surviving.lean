import DeviceShell.Proofs.Command.Calls
import DeviceShell.Proofs.Command.Grid
import DeviceShell.Proofs.Monitor.Course
import DeviceShell.Proofs.Relay.Interrupting
import DeviceShell.Proofs.Shell.Looping

/-! Whether a line is answered at all, whatever the configuration and whatever others do
meanwhile. -/
namespace DeviceShell

/-- The others, if they interrupt whatever goes on when they have nothing else left to do. -/
def Meanwhile.interrupted (m : Meanwhile) : Meanwhile where
  relay := m.relay.interrupted
  pauses := m.pauses ++ [[.raise]]

namespace Relay

variable {π : Type} [Pipe π] [Pipe.Lawful π ringSize] {chunk : Nat} {args : String}
  {script : Script} {token : Token} {shared : Shared} {console : Console}

/-- The only session that does not return is one that listens and is never interrupted. -/
theorem run_error {halt : Halt}
    (failed : run π chunk args script token shared console = .error halt) :
    halt = .endless ∧ Request.ofArgs args ≠ .help ∧
      shared.log.hub.sinks.length < Log.Hub.capacity := by
  by_cases accepted : Request.ofArgs args = .help
  · rw [run, accepted] at failed
    cases failed
  · rcases Nat.lt_or_ge shared.log.hub.sinks.length Log.Hub.capacity with room | full
    · refine ⟨?_, accepted, room⟩
      rw [run_of_accepted accepted, listen, register_of_lt _ _ _ _ _ _ room] at failed
      dsimp only at failed
      split at failed
      · exact (Except.error.inj failed).symm
      · cases failed
    · obtain ⟨ended, returned, -⟩ := run_of_full π accepted full
      cases returned.symm.trans failed

end Relay

namespace Shell

variable {shell : Shell} {task : Command.Task} {args line : String} {meanwhile : Meanwhile}
  {token : Token} {device : Device} {console : Console} {halt : Halt}

theorem top_error
    (failed : shell.top args meanwhile.pauses token device console = .error halt) :
    halt = .endless ∧ shell.Lasts .top args device := by
  unfold top at failed
  split at failed
  · cases failed
  · rename_i mode chosen
    cases mode with
    | once => cases failed
    | every interval =>
      refine ⟨?_, interval, chosen⟩
      simp only [Monitor.redraw] at failed
      generalize drawn : Monitor.Drawn.every _ _ _ _ = result at failed
      cases result with
      | ok last => cases failed
      | error halt =>
        cases failed
        exact Monitor.Drawn.every_error drawn

/-- A task that does not return is one that goes on until it is interrupted, or a listing. -/
theorem perform_error
    (failed : shell.perform task args meanwhile token device console = .error halt) :
    halt = .endless ∧ shell.Lasts task args device ∨
      halt = .fieldTooWide ∧ shell.Unlistable ∧ task = .help := by
  cases task with
  | help =>
    rw [perform] at failed
    rcases Command.help_cases shell.columns shell.table with unlistable | listable
    · rw [unlistable] at failed
      cases failed
      exact .inr ⟨rfl, unlistable, rfl⟩
    · obtain ⟨text, listing⟩ := listable args
      rw [listing] at failed
      cases failed
  | log =>
    rw [perform, log] at failed
    generalize returned : Relay.run (Relay.Circle Relay.ringSize) _ _ _ _ _ _ = result at failed
    cases result with
    | ok ended => cases failed
    | error halt =>
      cases failed
      obtain ⟨endless, accepted, room⟩ := Relay.run_error returned
      exact .inl ⟨endless, accepted, room⟩
  | top =>
    rw [perform] at failed
    exact .inl (top_error failed)
  | free | uptime | info | sysctl | source | clear | neofetch => cases failed

theorem top_interrupted (heeds : device.shared.interrupts.Heeds token) :
    ∃ effect, shell.top args meanwhile.interrupted.pauses token device console = .ok effect := by
  unfold top
  cases Monitor.Mode.ofArgs args shell.config.topInterval with
  | error failure => exact ⟨_, rfl⟩
  | ok mode =>
    cases mode with
    | once => exact ⟨_, rfl⟩
    | every interval =>
      have pauses : meanwhile.interrupted.pauses.map Device.actAll =
          meanwhile.pauses.map Device.actAll ++ [Device.actAll [.raise]] := List.map_append
      have keeps : ∀ change ∈ meanwhile.pauses.map Device.actAll, ∀ d : Device,
          d.shared.interrupts.Heeds token →
          (change ((view token).frame d).2).shared.interrupts.Heeds token := by
        intro change member d heeds
        obtain ⟨actions, -, rfl⟩ := List.mem_map.mp member
        exact heeds.of_alike (d.shared.alike_interrupts_actAll actions)
      have stops : ∀ d : Device, d.shared.interrupts.Heeds token →
          (view token).isCancelled (Device.actAll [.raise] ((view token).frame d).2) = true :=
        fun d heeds => heeds.raise
      let opened : Monitor.Drawn Device :=
        { subject := device
          console := (console.write Escape.clearScreen).write Escape.hideCursor }
      obtain ⟨drawn, ended⟩ : ∃ drawn, Monitor.Drawn.every (view token) interval
          (meanwhile.pauses.map Device.actAll ++ [Device.actAll [.raise]]) opened = .ok drawn :=
        Monitor.Drawn.exists_every_ok keeps stops heeds
      simp only [Monitor.redraw, pauses]
      rw [ended]
      exact ⟨_, rfl⟩

/-- What goes on returns if it is interrupted at last. -/
theorem perform_interrupted (heeds : device.shared.interrupts.Heeds token) :
    (∃ effect, shell.perform task args meanwhile.interrupted token device console = .ok effect) ∨
      shell.Unlistable ∧ task = .help := by
  cases task with
  | help =>
    rcases Command.help_cases shell.columns shell.table with unlistable | listable
    · exact .inr ⟨unlistable, rfl⟩
    · obtain ⟨text, listing⟩ := listable args
      exact .inl ⟨_, by rw [perform, listing]; rfl⟩
  | log =>
    obtain ⟨ended, returned⟩ := Relay.run_interrupted (Relay.Circle Relay.ringSize) heeds
      shell.config.relayChunk.toNat args meanwhile.relay console
    left
    rw [perform, log, Meanwhile.interrupted, returned]
    exact ⟨_, rfl⟩
  | top =>
    left
    rw [perform]
    exact top_interrupted heeds
  | free | uptime | info | sysctl | source | clear | neofetch => exact .inl ⟨_, rfl⟩

theorem heeds_armed (entry : Command.Entry) (device : Device) :
    (armed entry device).2.shared.interrupts.Heeds (armed entry device).1 :=
  ⟨rfl, by simp [armed, Device.arm, Interrupts.arm, Interrupts.newToken, Device.announce]⟩

/-- A line that is not answered starts a task that goes on until it is interrupted, or has a listing
printed that cannot be. -/
theorem execute_error
    (failed : shell.execute line meanwhile device console = .error halt) :
    halt = .endless ∧ shell.Loops line device ∨ halt = .fieldTooWide ∧ shell.Breaks line device := by
  cases starts : shell.starting line device with
  | none =>
    rcases execute_of_not_starting starts meanwhile console with
      ⟨-, done, executed, -⟩ | ⟨breaks, executed⟩
    · cases executed.symm.trans failed
    · cases executed.symm.trans failed
      exact .inr ⟨rfl, breaks⟩
  | some started =>
    obtain ⟨entry, args⟩ := started
    rw [execute_of_starting starts, launch_eq] at failed
    generalize performed : shell.perform _ _ _ _ _ _ = result at failed
    cases result with
    | ok effect => cases failed
    | error halt =>
      cases failed
      rcases perform_error performed with ⟨rfl, lasts⟩ | ⟨rfl, breaks⟩
      · exact .inl ⟨rfl, entry, args, starts,
          (lasts_congr (alike_armed entry device) entry.task args).mp lasts⟩
      · exact .inr ⟨rfl, (breaks_of_starting starts).mpr breaks⟩

theorem execute_of_breaks (breaks : shell.Breaks line device) (meanwhile : Meanwhile)
    (console : Console) : shell.execute line meanwhile device console = .error .fieldTooWide := by
  cases starts : shell.starting line device with
  | none =>
    rcases execute_of_not_starting starts meanwhile console with ⟨whole, -⟩ | ⟨-, executed⟩
    · exact absurd breaks whole
    · exact executed
  | some started =>
    obtain ⟨entry, args⟩ := started
    obtain ⟨unlistable, help⟩ := (breaks_of_starting starts).mp breaks
    rw [execute_of_starting starts, launch_eq, help, perform, unlistable]
    rfl

theorem execute_interrupted (whole : ¬ shell.Breaks line device) (meanwhile : Meanwhile)
    (console : Console) :
    ∃ done, shell.execute line meanwhile.interrupted device console = .ok done := by
  cases starts : shell.starting line device with
  | none =>
    rcases execute_of_not_starting starts meanwhile.interrupted console with
      ⟨-, done, executed, -⟩ | ⟨breaks, -⟩
    · exact ⟨done, executed⟩
    · exact absurd breaks whole
  | some started =>
    obtain ⟨entry, args⟩ := started
    rw [execute_of_starting starts, launch_eq]
    rcases perform_interrupted (heeds_armed entry device) with ⟨effect, performed⟩ | breaks
    · exact ⟨_, congrArg (Except.map _) performed⟩
    · exact absurd ((breaks_of_starting starts).mpr breaks) whole

/-- A listing cannot be printed if it shows a label in fields that are too wide. -/
theorem unlistable_iff (shell : Shell) :
    shell.Unlistable ↔ Command.Columns.maxField < shell.config.helpWidth.toNat ∧
      ∃ position, shell.columns.Shows shell.table.labels position := by
  constructor
  · intro unlistable
    exact Command.help_error_iff.mp (unlistable "")
  · intro wide missing
    exact Command.help_error_iff.mpr wide

theorem breaks_iff (shell : Shell) (line : String) (device : Device) :
    shell.Breaks line device ↔ Command.Columns.maxField < shell.config.helpWidth.toNat ∧
      shell.Lists line device ∧ ∃ position, shell.columns.Shows shell.table.labels position := by
  rw [Breaks, unlistable_iff, and_assoc]
  exact and_congr_right fun _ => And.comm

theorem execute_breaks_iff (shell : Shell) (line : String) (meanwhile : Meanwhile) (device : Device)
    (console : Console) :
    shell.execute line meanwhile device console = .error .fieldTooWide ↔
      shell.Breaks line device := by
  constructor
  · intro failed
    rcases execute_error failed with ⟨endless, -⟩ | ⟨-, breaks⟩
    · cases endless
    · exact breaks
  · intro breaks
    exact execute_of_breaks breaks meanwhile console

/-- The one way in which a line ends the program: it has the commands listed, and the listing shows
one of them in columns wider than a field can be. Any other line is answered, or it starts a task
that goes on until it is interrupted, and then is. No table is filled beyond its size. -/
theorem execute_survives (config : Config) (preset : List Command.Entry)
    (calls : List Command.Call) (line : String) (meanwhile : Meanwhile) (device : Device)
    (console : Console) :
    let shell : Shell := { table := (Command.Table.addAll preset {}).after calls, config := config }
    let result := shell.execute line meanwhile device console
    (result = .error .fieldTooWide ↔ Command.Columns.maxField < config.helpWidth.toNat ∧
      shell.Lists line device ∧ ∃ position, shell.columns.Shows shell.table.labels position) ∧
    (result ≠ .error .fieldTooWide → (∃ done, result = .ok done) ∨
      result = .error .endless ∧ shell.Loops line device ∧
        ∃ done, shell.execute line meanwhile.interrupted device console = .ok done) ∧
    shell.table.labels.length ≤ Command.Table.capacity ∧
    (shell.columns.starts shell.table.labels).length ≤ Command.Columns.maxCount := by
  intro shell result
  refine ⟨(execute_breaks_iff ..).trans (shell.breaks_iff line device), fun survived => ?_, ?_, ?_⟩
  · cases executed : result with
    | ok done => exact .inl ⟨done, rfl⟩
    | error halt =>
      rcases execute_error executed with ⟨rfl, loops⟩ | ⟨rfl, -⟩
      · have whole := fun breaks => not_loops_of_breaks breaks loops
        exact .inr ⟨rfl, loops, execute_interrupted whole meanwhile console⟩
      · exact absurd executed survived
  · rw [Command.Table.labels, List.length_map]
    exact (Command.Table.holds_after preset calls).fits
  · rw [Command.Columns.starts, List.length_map, List.length_range]
    exact Nat.max_le.mpr ⟨by decide, Nat.min_le_right _ _⟩

/-- There is an accepted configuration whose columns are wider than a field can be. -/
theorem exists_ofJson_wide :
    ∃ config, Config.ofJson .standard "\x7b\"help_column_width\":65536\x7d" = .ok config ∧
      config.helpWidth = 65536 ∧
        ∀ table, ({ table := table, config := config } : Shell).columns = .ofCount 3 65536 := by
  have fields : (Config.ofJson .standard "\x7b\"help_column_width\":65536\x7d").toOption.map
      (fun config => (config.helpColumns, config.helpWidth)) = some (3, 65536) := by
    decide +kernel
  cases accepted : Config.ofJson .standard "\x7b\"help_column_width\":65536\x7d" with
  | error failure =>
    rw [accepted] at fields
    cases fields
  | ok config =>
    rw [accepted] at fields
    obtain ⟨count, width⟩ := Prod.mk.inj (Option.some.inj fields)
    refine ⟨config, rfl, width, fun table => ?_⟩
    rw [Shell.columns, count, width]
    rfl

/-- An accepted configuration, and a line that the program does not survive with it. -/
theorem not_survived_help :
    ∃ config, Config.ofJson .standard "\x7b\"help_column_width\":65536\x7d" = .ok config ∧
      ({ config := config } : Shell).execute "help" {} { shared := { interrupts := { byte := 3 } } } {} =
        .error .fieldTooWide := by
  obtain ⟨config, accepted, -, columns⟩ := exists_ofJson_wide
  have starts : ({} : Shell).starting "help" { shared := { interrupts := { byte := 3 } } } =
      some ({ name := "help", parallelSafe := true, task := .help }, "") := by
    decide +kernel
  have shown : (Command.Columns.ofCount 3 65536).Shows Command.Table.standard.labels 0 :=
    ⟨by decide +kernel, ⟨"!", false⟩, by decide +kernel, rfl⟩
  have unlistable : ({ config := config } : Shell).Unlistable := fun missing => by
    rw [columns]
    exact Command.help_error_iff.mpr ⟨by decide, 0, shown⟩
  have starting : ({ config := config } : Shell).starting "help" _ = _ := starts
  exact ⟨config, accepted, execute_of_breaks ((breaks_of_starting starting).mpr ⟨unlistable, rfl⟩) _ _⟩

end Shell

end DeviceShell
