import KwinApi.Daemon.DbusService
import KwinApi.Daemon.KwinClient
import KwinApi.Daemon.Listener
import KwinApi.Lib.EarlyReturn

/-!
# The main program

`main.cpp`: the steps of the start, each with its way out, the event loop and the shutdown. What the
operating system, the bus and KWin answer is a parameter. Early returns run the destructors of what
has been constructed; an exception of the file system library ends the process.

## Main definitions

* `KwinApi.Outcomes` — the answers
* `KwinApi.Daemon` — what `main` has acquired
* `KwinApi.Main.main` — how a run ends, or the state in which the daemon still serves
* `KwinApi.Main.EndsOrderly` — nothing is left of what had been acquired

## Main results

* `Main.meets_startUp` — a start that fails ends orderly
* `Main.Acquired.turn`, `Acquired.eventLoop` — serving gives up no more than the place of the bus on
  the loop
* `Main.meets_main` — every run that returns ends orderly
-/

namespace KwinApi

/-- The answers to the steps of a run; a code below 0 is an error. -/
structure Outcomes where
  eventDefault : ℤ
  openUser : ℤ
  requestName : List UInt8 → ℤ
  addMatch : ℤ
  attachEvent : ℤ
  /-- For an object path and an interface. -/
  addVtable : List UInt8 → List UInt8 → ℤ
  listen : ListenIo
  /-- `std::filesystem::exists`, which may throw. -/
  fileExists : List UInt8 → Option Bool
  /-- `std::filesystem::is_regular_file`, which may throw. -/
  isRegularFile : List UInt8 → Option Bool
  stage : StageIo
  files : FileSystem
  /-- `std::filesystem::absolute`, which may throw. -/
  absolute : List UInt8 → Option (List UInt8)
  /-- By the number of the attempt. -/
  loadScript : ℕ → LoadReply
  /-- For the object path of a script. -/
  run : List UInt8 → ℤ
  /-- `sd_event_add_signal` for `SIGTERM`. -/
  addSigterm : ℤ
  /-- `sd_event_add_signal` for `SIGINT`. -/
  addSigint : ℤ
  unload : UnloadIo

/-- What `main` has acquired. -/
structure Daemon where
  dbus : DbusService
  server : Option Listener := none
  load : LoadResult := {}
  loop : EventLoop := {}
  /-- Whether `SIGTERM` has a source on the event loop. -/
  sigterm : Bool := false
  /-- Whether `SIGINT` has one. -/
  sigint : Bool := false
  /-- For every request to unload the script, whether the connection was open. -/
  unloads : List Bool := []

/-- The ends of a run: `std::terminate`, or a return with the state that is left. -/
inductive Ended where
  | terminated
  | returned (status : ℤ) (d : Daemon)

namespace Daemon

variable (d : Daemon)

/-- `dbus.close()` -/
def closeBus : Daemon := { d with dbus := d.dbus.close }

/-- `server.stop()` -/
def stopServer : Daemon := { d with server := d.server.map Listener.stop }

/-- `kwin.unload_script()` -/
def unloadScript (io : UnloadIo) : Bool × Daemon :=
  (KwinApi.unloadScript io, { d with unloads := d.unloads ++ [d.dbus.bus.any Bus.connected] })

/-- Return from `main`: the destructors run in reverse order. -/
def leave (status : ℤ) : Ended := .returned status d.stopServer.closeBus

end Daemon

/-! ### The start -/

namespace Main

section Start

variable (cfg : Config) (o : Outcomes) (d : Daemon)

/-- The command line, the configuration and the event loop. -/
def begin : Except Ended Daemon :=
  let d : Daemon := { dbus := .make cfg }
  if cfg.showHelp then .error (.returned 0 d)
  else if cfg.showVersion then .error (.returned 0 d)
  else if cfg.errors ≠ [] then .error (.returned 1 d)
  else leaveIf (o.eventDefault < 0) (.returned 1 d) d

/-- `dbus.open()` -/
def openBus : Except Ended Daemon :=
  let (r, dbus) := d.dbus.openBus o.openUser
  let d := { d with dbus }
  leaveIf (r < 0) (d.leave 1) d

/-- `dbus.request_name()` -/
def requestName : Except Ended Daemon :=
  let (r, dbus) := d.dbus.requestName o.requestName o.addMatch
  let d := { d with dbus }
  leaveIf (r < 0) (d.closeBus.leave 1) d

/-- `dbus.attach()` -/
def attach : Except Ended Daemon :=
  let (r, dbus) := d.dbus.attach o.attachEvent o.addVtable
  let d := { d with dbus }
  leaveIf (r < 0) (d.closeBus.leave 1) d

/-- `server.start()` -/
def startServer : Except Ended Daemon :=
  let (r, server) := (Listener.make cfg.workDir).start o.listen
  let d := { d with server := some server }
  leaveIf (r < 0) (d.closeBus.leave 1) d

/-- With `--check` the run ends here. -/
def check : Except Ended Daemon := leaveIf (cfg.checkOnly = true) (d.stopServer.closeBus.leave 0) d

/-- The script has to be a file. -/
def findScript : Except Ended Daemon :=
  match o.fileExists cfg.scriptPath, o.isRegularFile cfg.scriptPath with
  | none, _ => .error .terminated
  | some false, _ => .error (d.closeBus.stopServer.leave 1)
  | some true, none => .error .terminated
  | some true, some regular => leaveIf (regular = false) (d.closeBus.stopServer.leave 1) d

/-- The copy in the working directory, and its absolute path. -/
def stage : Except Ended Daemon :=
  if (stageKwinscript o.stage o.files cfg.scriptPath cfg.workDir cfg.serviceName).2 ≠ [] then
    .error (d.closeBus.stopServer.leave 1)
  else leaveIf (o.absolute (slash cfg.workDir (ascii "kwinscript.js")) = none) .terminated d

/-- The attempts to load the script. -/
def load : Except Ended Daemon :=
  let d := { d with load := loadWithRetries cfg.loadRetries o.loadScript }
  leaveIf (d.load.id < 0) (d.closeBus.stopServer.leave 1) d

/-- `kwin.run_script()`; without success the script is unloaded again. -/
def run : Except Ended Daemon :=
  leaveIf (runScript o.run d.load.id = false)
    ((d.unloadScript o.unload).2.closeBus.stopServer.leave 1) d

/-- Everything before the event loop. -/
def startUp : Except Ended Daemon := do
  let d ← begin cfg o
  let d ← openBus o d
  let d ← requestName o d
  let d ← attach o d
  let d ← startServer cfg o d
  let d ← check cfg d
  let d ← findScript cfg o d
  let d ← stage cfg o d
  let d ← load cfg o d
  run o d

end Start

end Main

/-! ### The event loop and the shutdown -/

/-- What can happen while the daemon serves, as far as it ends the loop. -/
inductive ServeEvent where
  | sigterm
  | sigint
  | nameLost (name : Option (List UInt8))
  | loopError (errno : ℕ)

namespace Main

section Serve

variable (lib : SdEvent) (o : Outcomes)

/-- The sources of the two signals. That one could not be added is ignored. -/
def addSignals (d : Daemon) : Daemon :=
  { d with sigterm := 0 ≤ o.addSigterm, sigint := 0 ≤ o.addSigint }

/-- `on_signal` -/
def onSignal (d : Daemon) : Daemon := { d with loop := lib.exit true 0 d.loop }

/-- A `NameLost` signal, which reaches `on_name_lost` if its rule is installed. -/
def nameLost (d : Daemon) (name : Option (List UInt8)) : Daemon :=
  if d.dbus.bus.any Bus.matched then
    let (dbus, loop) := d.dbus.onNameLost lib name d.loop
    { d with dbus, loop }
  else d

/-- The loop after a handler: it ends with the code it has been asked to end with. -/
def afterHandler (d : Daemon) : Daemon × Option ℤ :=
  match d.loop.exitCode with
  | some code => ({ d with dbus := d.dbus.loopEnded }, some code)
  | none => (d, none)

/-- A signal reaches its handler if it has a source. Both signals are blocked from the start, so
without one nothing happens. -/
def signal (d : Daemon) (source : Bool) : Daemon × Option ℤ :=
  if source then afterHandler (onSignal lib d) else (d, none)

/-- One turn of the loop: `sd_event_run`. -/
def turn (d : Daemon) : ServeEvent → Daemon × Option ℤ
  | .sigterm => signal lib d d.sigterm
  | .sigint => signal lib d d.sigint
  | .nameLost name => afterHandler (nameLost lib d name)
  | .loopError errno => (d, some (-(errno : ℤ)))

/-- `sd_event_loop`, with the code it returns, if it does. -/
def eventLoop (d : Daemon) : List ServeEvent → Daemon × Option ℤ
  | [] => (d, none)
  | event :: events =>
    match turn lib d event with
    | (d, some r) => (d, some r)
    | (d, none) => eventLoop d events

/-- Serve, and shut down when the loop has ended. -/
def serve (events : List ServeEvent) (d : Daemon) : Except Ended Daemon :=
  match eventLoop lib (addSignals o d) events with
  | (d, none) => .ok d
  | (d, some r) =>
    .error ((d.unloadScript o.unload).2.stopServer.closeBus.leave (if r < 0 then 1 else 0))

/-- `main`: the end of the run, or the state of a daemon that still serves. -/
def main (cfg : Config) (events : List ServeEvent) : Except Ended Daemon :=
  startUp cfg o >>= serve lib o events

end Serve

/-! ### Orderly ends -/

/-- The connection to the bus is closed, the listening socket too and its file is gone, and the
script was unloaded, over an open connection, exactly if it had been loaded. -/
structure Orderly (d : Daemon) : Prop where
  bus : d.dbus.bus = none
  server : ∀ s ∈ d.server, s.Released
  unloads : d.unloads = if 0 ≤ d.load.id then [true] else []

/-- A run that returns leaves an orderly state. -/
def EndsOrderly : Ended → Prop
  | .terminated => True
  | .returned _ d => Orderly d

/-- What can be left as it is: the destructors do the rest. -/
structure Clean (d : Daemon) : Prop where
  tidy : ∀ s ∈ d.server, s.Tidy
  unloads : d.unloads = if 0 ≤ d.load.id then [true] else []

/-- What the steps of the start have acquired. -/
structure Acquired (cfg : Config) (d : Daemon) : Prop where
  up : d.dbus.Up
  tidy : ∀ s ∈ d.server, s.Tidy
  unloads : d.unloads = []
  names : d.dbus.names = (cfg.serviceName, objectPathForName cfg.serviceName)

variable {lib : SdEvent} {cfg : Config} {o : Outcomes} {d : Daemon}

theorem Clean.setBus (h : Clean d) (dbus : DbusService) : Clean { d with dbus } :=
  ⟨h.tidy, h.unloads⟩

theorem Clean.closeBus (h : Clean d) : Clean d.closeBus := ⟨h.tidy, h.unloads⟩

theorem Clean.stopServer (h : Clean d) : Clean d.stopServer := by
  refine ⟨fun s hs => ?_, h.unloads⟩
  obtain ⟨t, ht, rfl⟩ := Option.mem_map.mp hs
  exact (h.tidy t ht).stop

/-- Every way out is orderly that leaves a clean state. -/
theorem Clean.leave (h : Clean d) (status : ℤ) : EndsOrderly (d.leave status) := by
  refine ⟨DbusService.bus_close _, fun s hs => ?_, h.unloads⟩
  obtain ⟨t, ht, rfl⟩ := Option.mem_map.mp hs
  exact (h.tidy t ht).stop_released

theorem Acquired.serviceName (h : Acquired cfg d) : d.dbus.serviceName = cfg.serviceName :=
  congrArg Prod.fst h.names

theorem Acquired.clean (h : Acquired cfg d) (hload : d.load.id < 0) : Clean d := by
  refine ⟨h.tidy, ?_⟩
  rw [h.unloads, if_neg (not_le.mpr hload)]

/-- After the script was loaded, a state is clean once it has been unloaded. -/
theorem Acquired.unloadScript (h : Acquired cfg d) (hload : 0 ≤ d.load.id) (io : UnloadIo) :
    Clean (d.unloadScript io).2 := by
  refine ⟨h.tidy, ?_⟩
  obtain ⟨b, hb, hconnected, -⟩ := h.up
  change d.unloads ++ [d.dbus.bus.any Bus.connected] = if 0 ≤ d.load.id then [true] else []
  rw [h.unloads, hb, if_pos hload]
  simp [hconnected]

/-- What has been acquired before the script is loaded. -/
structure Starting (cfg : Config) (d : Daemon) : Prop extends Acquired cfg d where
  notLoaded : d.load.id < 0
  loop : d.loop.exitCode = none

/-- What has been acquired once it is loaded. -/
structure Loaded (cfg : Config) (d : Daemon) : Prop extends Acquired cfg d where
  loaded : 0 ≤ d.load.id
  loop : d.loop.exitCode = none

/-- Loaded by these attempts. -/
structure LoadedBy (cfg : Config) (o : Outcomes) (d : Daemon) : Prop extends Loaded cfg d where
  attempts : d.load = loadWithRetries cfg.loadRetries o.loadScript

theorem Starting.clean (h : Starting cfg d) : Clean d := h.toAcquired.clean h.notLoaded

/-- What there is before the bus has been opened. -/
def idle (cfg : Config) : Daemon := { dbus := .make cfg }

theorem clean_idle (cfg : Config) : Clean (idle cfg) := ⟨by simp [idle], rfl⟩

theorem meets_begin : Meets EndsOrderly (· = idle cfg) (begin cfg o) := by
  have hreturn : ∀ status, EndsOrderly (.returned status (idle cfg)) :=
    fun _ => ⟨rfl, by simp [idle], rfl⟩
  rw [begin]
  split_ifs
  · exact hreturn 0
  · exact hreturn 0
  · exact hreturn 1
  · exact meets_leaveIf (fun _ => hreturn 1) fun _ => rfl

theorem meets_openBus (h : d = idle cfg) : Meets EndsOrderly (Starting cfg) (openBus o d) := by
  subst h
  have hup : ¬ ((idle cfg).dbus.openBus o.openUser).1 < 0 →
      ((idle cfg).dbus.openBus o.openUser).2.Up := fun hok =>
    DbusService.up_openBus rfl (mt (DbusService.openBus_lt_zero rfl).mpr hok)
  have hnames : ((idle cfg).dbus.openBus o.openUser).2.names = (idle cfg).dbus.names :=
    DbusService.names_openBus (idle cfg).dbus o.openUser
  have hload : (-1 : ℤ) < 0 := by decide
  refine meets_leaveIf (fun _ => ?_) fun hok => ?_
  · exact ((clean_idle cfg).setBus _).leave 1
  · exact ⟨⟨hup hok, (clean_idle cfg).tidy, rfl, hnames⟩, hload, rfl⟩

theorem meets_requestName (h : Starting cfg d) :
    Meets EndsOrderly (Starting cfg) (requestName o d) := by
  refine meets_leaveIf (fun _ => (h.clean.setBus _).closeBus.leave 1) fun _ => ?_
  refine ⟨⟨h.up.requestName, h.tidy, h.unloads, ?_⟩, h.notLoaded, h.loop⟩
  exact (DbusService.names_requestName _ _ _).trans h.names

theorem meets_attach (h : Starting cfg d) : Meets EndsOrderly (Starting cfg) (attach o d) := by
  refine meets_leaveIf (fun _ => (h.clean.setBus _).closeBus.leave 1) fun _ => ?_
  refine ⟨⟨h.up.attach, h.tidy, h.unloads, ?_⟩, h.notLoaded, h.loop⟩
  exact (DbusService.names_attach _ _ _).trans h.names

theorem meets_startServer (h : Starting cfg d) :
    Meets EndsOrderly (Starting cfg) (startServer cfg o d) := by
  have htidy : ∀ s ∈ some ((Listener.make cfg.workDir).start o.listen).2, s.Tidy := by
    rintro s ⟨⟩
    exact (Listener.tidy_make cfg.workDir).start rfl
  have hstarted : Starting cfg
      { d with server := some ((Listener.make cfg.workDir).start o.listen).2 } :=
    ⟨⟨h.up, htidy, h.unloads, h.names⟩, h.notLoaded, h.loop⟩
  exact meets_leaveIf (fun _ => hstarted.clean.closeBus.leave 1) fun _ => hstarted

theorem meets_check (h : Starting cfg d) : Meets EndsOrderly (Starting cfg) (check cfg d) :=
  meets_leaveIf (fun _ => h.clean.stopServer.closeBus.leave 0) fun _ => h

theorem meets_findScript (h : Starting cfg d) :
    Meets EndsOrderly (Starting cfg) (findScript cfg o d) := by
  have hleave := h.clean.closeBus.stopServer.leave 1
  rw [findScript]
  split
  · exact True.intro
  · exact hleave
  · exact True.intro
  · exact meets_leaveIf (fun _ => hleave) fun _ => h

theorem meets_stage (h : Starting cfg d) : Meets EndsOrderly (Starting cfg) (stage cfg o d) := by
  rw [stage]
  split_ifs
  · exact h.clean.closeBus.stopServer.leave 1
  · exact meets_leaveIf (fun _ => True.intro) fun _ => h

theorem meets_load (h : Starting cfg d) : Meets EndsOrderly (LoadedBy cfg o) (load cfg o d) := by
  have hload : Acquired cfg { d with load := loadWithRetries cfg.loadRetries o.loadScript } :=
    ⟨h.up, h.tidy, h.unloads, h.names⟩
  exact meets_leaveIf (fun hfail => (hload.clean hfail).closeBus.stopServer.leave 1)
    fun hok => ⟨⟨hload, not_lt.mp hok, h.loop⟩, rfl⟩

theorem meets_run (h : LoadedBy cfg o d) : Meets EndsOrderly (LoadedBy cfg o) (run o d) :=
  meets_leaveIf (fun _ => (h.unloadScript h.loaded o.unload).closeBus.stopServer.leave 1)
    fun _ => h

/-- **Whatever fails during the start, what had been acquired is released.** -/
theorem meets_startUp : Meets EndsOrderly (LoadedBy cfg o) (startUp cfg o) :=
  meets_begin.bind fun _ hidle => (meets_openBus hidle).bind fun _ h =>
    (meets_requestName h).bind fun _ h => (meets_attach h).bind fun _ h =>
    (meets_startServer h).bind fun _ h => (meets_check h).bind fun _ h =>
    (meets_findScript h).bind fun _ h => (meets_stage h).bind fun _ h =>
    (meets_load h).bind fun _ h => meets_run h

/-! ### While the daemon serves -/

theorem Acquired.nameLost (h : Acquired cfg d) (name : Option (List UInt8)) :
    Acquired cfg (nameLost lib d name) := by
  rw [Main.nameLost]
  split_ifs
  · refine ⟨h.up.onNameLost, h.tidy, h.unloads, ?_⟩
    exact (DbusService.names_onNameLost d.dbus).trans h.names
  · exact h

theorem load_nameLost (d : Daemon) (name : Option (List UInt8)) :
    (nameLost lib d name).load = d.load := by
  rw [nameLost]
  split_ifs <;> rfl

theorem Acquired.afterHandler (h : Acquired cfg d) :
    Acquired cfg (afterHandler d).1 ∧ (afterHandler d).1.load = d.load := by
  rw [Main.afterHandler]
  split
  · exact ⟨⟨h.up.loopEnded, h.tidy, h.unloads, h.names⟩, rfl⟩
  · exact ⟨h, rfl⟩

theorem Acquired.signal (h : Acquired cfg d) (source : Bool) :
    Acquired cfg (signal lib d source).1 ∧ (signal lib d source).1.load = d.load := by
  have hsignal : Acquired cfg (onSignal lib d) := ⟨h.up, h.tidy, h.unloads, h.names⟩
  rw [Main.signal]
  split_ifs
  · exact hsignal.afterHandler
  · exact ⟨h, rfl⟩

/-- One turn of the loop takes nothing away but the place of the connection on the loop. -/
theorem Acquired.turn (h : Acquired cfg d) (event : ServeEvent) :
    Acquired cfg (turn lib d event).1 ∧ (turn lib d event).1.load = d.load := by
  cases event with
  | sigterm | sigint => exact h.signal _
  | nameLost name =>
    obtain ⟨hafter, hload⟩ := (@Acquired.nameLost lib cfg d h name).afterHandler
    exact ⟨hafter, hload.trans (load_nameLost d name)⟩
  | loopError errno => exact ⟨h, rfl⟩

theorem Acquired.eventLoop (h : Acquired cfg d) (events : List ServeEvent) :
    Acquired cfg (eventLoop lib d events).1 ∧ (eventLoop lib d events).1.load = d.load := by
  induction events generalizing d with
  | nil => exact ⟨h, rfl⟩
  | cons event events ih =>
    obtain ⟨hturn, hload⟩ := @Acquired.turn lib cfg d h event
    rw [Main.eventLoop]
    split
    · rename_i d' r hd'
      rw [hd'] at hturn hload
      exact ⟨hturn, hload⟩
    · rename_i d' hd'
      rw [hd'] at hturn hload
      obtain ⟨hacquired, hsame⟩ := ih hturn
      exact ⟨hacquired, hsame.trans hload⟩

theorem Loaded.addSignals (h : Loaded cfg d) (o : Outcomes) : Loaded cfg (addSignals o d) :=
  ⟨⟨h.up, h.tidy, h.unloads, h.names⟩, h.loaded, h.loop⟩

/-- The shutdown after the loop is orderly. -/
theorem meets_serve (h : Loaded cfg d) (events : List ServeEvent) :
    Meets EndsOrderly (fun _ => True) (serve lib o events d) := by
  have hserving := h.addSignals o
  obtain ⟨hacquired, hload⟩ := @Acquired.eventLoop lib cfg _ hserving.toAcquired events
  rw [serve]
  split
  · exact True.intro
  · rename_i d' r hd'
    rw [hd'] at hacquired hload
    have hloaded : 0 ≤ d'.load.id := by
      rw [hload]
      exact hserving.loaded
    exact (hacquired.unloadScript hloaded o.unload).stopServer.closeBus.leave
      (if r < 0 then 1 else 0)

/-- **Every run that returns is orderly**, whatever fails and whatever happens while serving. -/
theorem meets_main (events : List ServeEvent) :
    Meets EndsOrderly (fun _ => True) (main lib o cfg events) :=
  meets_startUp.bind fun _ h => meets_serve h.toLoaded events

end Main

end KwinApi
