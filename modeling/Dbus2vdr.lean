import Dbus2vdr.Lib.Shell
import Dbus2vdr.Shutdown.Command
import Dbus2vdr.Shutdown.ReplyCodes
import Dbus2vdr.Shutdown.Guards
import Dbus2vdr.Shutdown.Wrapper
import Dbus2vdr.SysLog
import Dbus2vdr.Avahi.Options
import Dbus2vdr.Plugin
import Dbus2vdr.Timer
import Dbus2vdr.Helper
import Dbus2vdr.Connection.Disconnect
import Dbus2vdr.Connection.Exports
import Dbus2vdr.Connection.Teardown
import Dbus2vdr.Connection.Order
import Dbus2vdr.Connection.Flush
import Dbus2vdr.Connection.Waiting
import Dbus2vdr.Connection.MethodCalls
import Dbus2vdr.Watchers.Current
import Dbus2vdr.Watchers.Held
import Dbus2vdr.Network.Service
import Dbus2vdr.Setup.ReadWrites
import Dbus2vdr.Setup.Isolation
import Dbus2vdr.Setup.Del
import Dbus2vdr.Setup.Agreement
import Dbus2vdr.Objects.Calls
import Dbus2vdr.Objects.ChannelNumbers
import Dbus2vdr.Objects.OwnRecordings
import Dbus2vdr.Objects.Broadcast
import Dbus2vdr.Objects.AskUser
import Dbus2vdr.Network.TxtEntries
import Dbus2vdr.Shutdown.Pipe
import Dbus2vdr.Avahi.Bounds
import Dbus2vdr.VideoDirectories
import Dbus2vdr.MainLoop
import Dbus2vdr.Osd.Providers
import Dbus2vdr.Osd.Sessions
import Dbus2vdr.Threads.Mutex
import Dbus2vdr.Objects.Replaying
import Dbus2vdr.Objects.PrimaryDevice
import Dbus2vdr.Objects.Workers
import Dbus2vdr.Setup.BoundValues
import Dbus2vdr.Setup.BindingList
import Dbus2vdr.Shutdown.ExitPipe
import Dbus2vdr.Threads.Incarnations
import Dbus2vdr.Lists.Vector
import Dbus2vdr.Objects.Registry
import Dbus2vdr.Osd.Directories
import Dbus2vdr.Osd.Pictures
import Dbus2vdr.StringBuffers
