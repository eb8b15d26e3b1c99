import TurbineGovernor.TransitionRuns
import TurbineGovernor.PriorityQueues
import TurbineGovernor.ByteOrder
import TurbineGovernor.Loops
import TurbineGovernor.CommonTypes
import TurbineGovernor.MasterDriver
import TurbineGovernor.MasterDriverSpec
import TurbineGovernor.MasterPolling
import TurbineGovernor.WriteRequests
import TurbineGovernor.WriteOrder
import TurbineGovernor.SlaveDriver
import TurbineGovernor.RegisterMap
import TurbineGovernor.ForceTransfer
import TurbineGovernor.KeyedTables
import TurbineGovernor.HmiImage
import TurbineGovernor.ButtonProtocol
import TurbineGovernor.LockPrograms
import TurbineGovernor.HmiLocks
import TurbineGovernor.ChangeNotification
import TurbineGovernor.BitStrings
import TurbineGovernor.RegulatorAlarms
import TurbineGovernor.AlarmsWidget
import TurbineGovernor.FieldStates
import TurbineGovernor.FieldErrors
import TurbineGovernor.LogicAlarms
import TurbineGovernor.LogicDisplay
import TurbineGovernor.ScanLoop
import TurbineGovernor.CommAlarms
import TurbineGovernor.InitialMemory
import TurbineGovernor.WordLayout
import TurbineGovernor.ChannelOwnership
import TurbineGovernor.HostOrder
import TurbineGovernor.NotificationOrder
import TurbineGovernor.ProcessImage
import TurbineGovernor.EthercatDriver
import TurbineGovernor.ErrorBookkeeping
import TurbineGovernor.StartUp
import TurbineGovernor.WriteExpiry
import TurbineGovernor.CyclicScans
import TurbineGovernor.PollingCoverage
import TurbineGovernor.TransferChains
import TurbineGovernor.SlaveSockets
import TurbineGovernor.RetryTruth
import TurbineGovernor.SlaveChecks
import TurbineGovernor.TableBounds
import TurbineGovernor.BitNumbering
import TurbineGovernor.AffineScales
import TurbineGovernor.DeviceValues
import TurbineGovernor.AnalogWords
import TurbineGovernor.PulsePreset
import TurbineGovernor.SlaveServer
import TurbineGovernor.MaximalRuns
import TurbineGovernor.PulseMeasure
import TurbineGovernor.RegulatorImage
import TurbineGovernor.ForceOverride
import TurbineGovernor.AddressIndex
import TurbineGovernor.SingleSums
import TurbineGovernor.SetPoints
import TurbineGovernor.ManualSpeed
import TurbineGovernor.TrendScroll
import TurbineGovernor.InitTraces
import TurbineGovernor.DecimalTexts
import TurbineGovernor.DriverFiles
import TurbineGovernor.DriverTables
import TurbineGovernor.RegInfoFile
import TurbineGovernor.RegInfoElements
import TurbineGovernor.RoundedSteps
import TurbineGovernor.PublishedImage
import TurbineGovernor.MirroredTables
import TurbineGovernor.CommandDelivery
import TurbineGovernor.RegulatorLoop
import TurbineGovernor.RunUp
import TurbineGovernor.ViewParts
import TurbineGovernor.ControlPanel
import TurbineGovernor.OperatorDesk
import TurbineGovernor.PidTable
import TurbineGovernor.AlarmsDisplay
import TurbineGovernor.WindowViews
import TurbineGovernor.RefreshedTables
import TurbineGovernor.ShownSignals
import TurbineGovernor.ViewRefresh
import TurbineGovernor.FieldAccess
import TurbineGovernor.FieldStore
import TurbineGovernor.CommandedOperation
