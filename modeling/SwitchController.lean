import SwitchController.Nfc.Acceptance
import SwitchController.Nfc.Queue
import SwitchController.Nfc.Announcement
import SwitchController.Nfc.Crc
import SwitchController.Device.Replies
import SwitchController.Device.SpiFlash
import SwitchController.Device.FlashImage
import SwitchController.Device.LineReader
import SwitchController.Device.Answers
import SwitchController.Transport.TagReads
import SwitchController.Transport.Wakeup
import SwitchController.Transport.Stamps
import SwitchController.Transport.Isolation
import SwitchController.Transport.Bluedroid
import SwitchController.Host.Workflow
import SwitchController.Host.Buttons
import SwitchController.Host.LateReply
import SwitchController.Host.Alive
import SwitchController.Host.SessionLoop
