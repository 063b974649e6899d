import ModbusRtu.Kernel.ByteWindow
import ModbusRtu.Kernel.ChunkAssembly
import ModbusRtu.Kernel.CircularStream
import ModbusRtu.Kernel.Dialogue
import ModbusRtu.Kernel.HalfwordBytes
import ModbusRtu.Kernel.MachineRun
import ModbusRtu.Kernel.RefusingLoop
import ModbusRtu.Kernel.Resending
import ModbusRtu.Kernel.Segments
import ModbusRtu.Kernel.ShiftRegister
import ModbusRtu.Port.AcknowledgedContent
import ModbusRtu.Port.AssemblyRefinement
import ModbusRtu.Port.BurstPort
import ModbusRtu.Port.BurstRead
import ModbusRtu.Port.BusConversation
import ModbusRtu.Port.BusOfServers
import ModbusRtu.Port.BusTransfer
import ModbusRtu.Port.ByteGap
import ModbusRtu.Port.CorruptedRequest
import ModbusRtu.Port.DeliveredText
import ModbusRtu.Port.DeviceService
import ModbusRtu.Port.ExactHazards
import ModbusRtu.Port.FileOverSerial
import ModbusRtu.Port.FileSendModel
import ModbusRtu.Port.FileSendSteps
import ModbusRtu.Port.FrameServer
import ModbusRtu.Port.LineContract
import ModbusRtu.Port.LossyTransfer
import ModbusRtu.Port.MessageBuffer
import ModbusRtu.Port.NmbsCrc
import ModbusRtu.Port.NmbsServerModel
import ModbusRtu.Port.PollAgreement
import ModbusRtu.Port.PortHeader
import ModbusRtu.Port.PythonSender
import ModbusRtu.Port.ReadSerialCall
import ModbusRtu.Port.ReadSerialDeadline
import ModbusRtu.Port.ReadSerialFifo
import ModbusRtu.Port.ReadSerialModel
import ModbusRtu.Port.ReadSerialReturn
import ModbusRtu.Port.Reassembly
import ModbusRtu.Port.RecordAgreement
import ModbusRtu.Port.RecordIdentity
import ModbusRtu.Port.RefusedWrite
import ModbusRtu.Port.RegisterMap
import ModbusRtu.Port.RegisterModel
import ModbusRtu.Port.RejectedRecord
import ModbusRtu.Port.RequestFormat
import ModbusRtu.Port.Resynchronisation
import ModbusRtu.Port.RetriedRecord
import ModbusRtu.Port.SerialLine
import ModbusRtu.Port.ServerAgreement
import ModbusRtu.Port.ServerSetup
import ModbusRtu.Port.SessionDiscipline
import ModbusRtu.Port.SessionLedger
import ModbusRtu.Port.WaitBound
