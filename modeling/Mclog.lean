import Mclog.General.Codec
import Mclog.Basic
import Mclog.Message
import Mclog.Config
import Mclog.Equiv.LogPath
import Mclog.Equiv.MessagePacket
import Mclog.Equiv.Senders
import Mclog.Equiv.ArchiveNames
import Mclog.Equiv.Authenticity
import Mclog.Equiv.LogFile
import Mclog.Equiv.LogFiles
import Mclog.Equiv.MulticastSource
import Mclog.Equiv.Receivers
import Mclog.Equiv.Secrecy
import Mclog.ConfigFile
import Mclog.Daemon
import Mclog.Equiv.ConfigFile
import Mclog.Equiv.Daemon
import Mclog.Equiv.DeliveryOrder
import Mclog.Equiv.KeyRotation
import Mclog.Equiv.LogPathCache
import Mclog.Equiv.Logger
import Mclog.Equiv.MessageFiles
import Mclog.Equiv.Routing
import Mclog.Equiv.Shutdown
import Mclog.Equiv.ArchiveShift
import Mclog.Equiv.CompletedRoll
import Mclog.Equiv.FileErrors
import Mclog.Equiv.MessageReaders
import Mclog.Equiv.Recovery
import Mclog.Equiv.Retention
import Mclog.Equiv.RollInterval
import Mclog.Equiv.Segmentation
import Mclog.Equiv.Substitution
import Mclog.Equiv.MessageText
import Mclog.Equiv.FilterVariables
import Mclog.Equiv.KeyQueries
import Mclog.Equiv.KeyRequestListener
import Mclog.Equiv.OneStream
import Mclog.Equiv.TimedSenders
import Mclog.Equiv.FilterGrammar
import Mclog.Equiv.ConfigIntegers
import Mclog.Equiv.LogSizes
import Mclog.Equiv.LoggerSinks
import Mclog.Equiv.Mclogger
import Mclog.Equiv.PacketObject
import Mclog.Equiv.PidLiterals
import Mclog.DaemonThreads
import Mclog.Equiv.DaemonOrder
import Mclog.Equiv.DaemonThreads
import Mclog.Equiv.MulticastReceiver
import Mclog.Equiv.Viewer
import Mclog.Equiv.HostToHost
import Mclog.Equiv.KeyNetwork
import Mclog.Equiv.KeyRequester
import Mclog.Equiv.OwnLogs
